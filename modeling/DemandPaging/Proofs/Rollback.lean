import DemandPaging.Proofs.Allocation
import DemandPaging.Proofs.RoundTrip
import DemandPaging.Proofs.Twins

/-!
Stores that fail. A store that fails may have taken a slot never handed out before and given it
back, and may have written some of its sectors. Neither shows: the slot lies at the bottom of the
stack of released slots, where it is reached exactly when it would be the next new one, and its
sectors are not read before they are written again.
-/

namespace DemandPaging

namespace SlotAllocator

variable {slots other taken released : SlotAllocator} {slot : SwapSlot}

/-- The second allocator is the first one, or it is one step ahead: it has handed out the next new
slot before and got it back, and has that slot at the bottom of its stack. -/
def Tried (slots other : SlotAllocator) : Prop :=
  other = slots ∨ slots.tail < slots.capacity ∧
    other = { slots with tail := slots.tail + 1, free := slots.free ++ [⟨slots.tail⟩] }

namespace Tried

theorem capacity_eq (tried : slots.Tried other) : other.capacity = slots.capacity := by
  rcases tried with rfl | ⟨_, rfl⟩ <;> rfl

theorem used_eq (tried : slots.Tried other) : other.used = slots.used := by
  rcases tried with rfl | ⟨_, rfl⟩ <;> rfl

theorem live_eq (tried : slots.Tried other) : other.live = slots.live := by
  rcases tried with rfl | ⟨_, rfl⟩ <;> rfl

theorem isAllocated_eq (tried : slots.Tried other) : other.isAllocated = slots.isAllocated := by
  unfold isAllocated
  rw [tried.live_eq]

/-- Both come to the same slot next. The one that is ahead is so no longer when the other one has
come to its next new slot. -/
theorem next? (tried : slots.Tried other) :
    Option.Rel (SameAnswer Tried) slots.next? other.next? := by
  rcases tried with rfl | ⟨ahead, rfl⟩
  · cases other.next? with
    | none => exact .none
    | some taken => exact .some ⟨rfl, .inl rfl⟩
  · unfold SlotAllocator.next?
    cases listed : slots.free with
    | cons slot free => exact .some ⟨rfl, .inr ⟨ahead, rfl⟩⟩
    | nil =>
        dsimp only
        rw [if_pos ahead]
        exact .some ⟨rfl, .inl rfl⟩

theorem occupy (tried : slots.Tried other) (slot : SwapSlot) :
    (slots.occupy slot).Alike Tried (other.occupy slot) := by
  unfold SlotAllocator.occupy
  rw [tried.live_eq]
  cases slots.live[slot.value]? with
  | none => exact .error _
  | some live =>
      refine .bind .require fun _ _ _ => .pure ?_
      rcases tried with rfl | ⟨ahead, rfl⟩
      · exact .inl rfl
      · exact .inr ⟨Nat.lt_of_lt_of_eq ahead Array.size_setIfInBounds.symm, rfl⟩

theorem allocate (tried : slots.Tried other) :
    slots.allocate.Alike (Option.Rel (SameAnswer Tried)) other.allocate := by
  have next := tried.next?
  unfold SlotAllocator.allocate
  match slots.next?, other.next?, next with
  | none, none, .none => exact .pure .none
  | some (slot, left), some (_, right), .some ⟨rfl, tried⟩ =>
      exact .bind (tried.occupy slot) fun _ _ tried => .pure (.some ⟨rfl, tried⟩)

theorem release (tried : slots.Tried other) (slot : SwapSlot) :
    (slots.release slot).Alike Tried (other.release slot) := by
  unfold SlotAllocator.release
  rw [tried.isAllocated_eq, tried.used_eq]
  refine .bind .require fun _ _ _ => .bind (.refl (Word.sub slots.used 1)) ?_
  rintro used _ rfl
  refine .pure ?_
  rcases tried with rfl | ⟨ahead, rfl⟩
  · exact .inl rfl
  · exact .inr ⟨Nat.lt_of_lt_of_eq ahead Array.size_setIfInBounds.symm, rfl⟩

end Tried

/-- A slot that is handed out and given back at once is on top of the stack again, if it was there
before; otherwise it is the only one there. -/
theorem WellFormed.undone_eq (wellFormed : slots.WellFormed)
    (found : slots.allocate = .ok (some (slot, taken)))
    (undone : taken.release slot = .ok released) :
    released = slots ∨ slots.free = [] ∧ slots.tail < slots.capacity ∧
      released = { slots with tail := slots.tail + 1, free := [⟨slots.tail⟩] } := by
  obtain ⟨_, rfl⟩ := (wellFormed.allocate found).1.release_eq_ok.mp undone
  obtain ⟨left, next, rfl⟩ := wellFormed.allocate_eq_some.mp found
  obtain ⟨inside, idle, same⟩ := wellFormed.next_idle next
  rw [vacated_occupied (by unfold capacity; rw [same]; exact inside)
    (by unfold isAllocated; rw [same]; exact idle)]
  rcases next?_eq_some.mp next with ⟨free, listed, rfl⟩ | ⟨empty, room, rfl, rfl⟩
  · exact .inl (by rw [← listed])
  · exact .inr ⟨empty, room, by rw [empty]⟩

theorem WellFormed.tried_of_undone (wellFormed : slots.WellFormed)
    (found : slots.allocate = .ok (some (slot, taken)))
    (undone : taken.release slot = .ok released) : slots.Tried released := by
  rcases wellFormed.undone_eq found undone with same | ⟨empty, room, ahead⟩
  · exact .inl same
  · exact .inr ⟨room, by rw [ahead, empty, List.nil_append]⟩

end SlotAllocator

namespace SwapDevice

variable {device other : SwapDevice} {first sector : Nat}

theorem twins_writeSectors (device : SwapDevice) (first : Nat) (page : Page)
    (indices : List (Fin sectorsPerPage)) :
    device.Twins (device.writeSectors first page indices).2 := by
  induction indices generalizing device with
  | nil => exact ⟨_, rfl⟩
  | cons index rest ih =>
      unfold writeSectors
      rw [write_eq]
      split
      · rename_i failed
        exact ⟨_, rfl⟩
      · rename_i written write
        split at write
        · cases write
        · split at write
          · cases write
            obtain ⟨last, twins⟩ := ih _
            exact ⟨last, twins⟩
          · cases write

theorem Twins.read_eq (twins : device.Twins other)
    (same : other.sectorAt sector = device.sectorAt sector) :
    other.read sector = device.read sector := by
  obtain ⟨written, rfl⟩ := twins
  unfold sectorAt at same
  unfold SwapDevice.read Disk.read
  dsimp only at same ⊢
  rw [same]

theorem Twins.readPage_eq (twins : device.Twins other)
    (same : other.pageAt first = device.pageAt first) (page : Page) :
    other.readPage first page = device.readPage first page := by
  refine readSectors_congr (fun index _ => twins.read_eq ?_) page
  rw [← sector_pageAt, ← sector_pageAt, same]

end SwapDevice

namespace SwapTable

variable {swap other after : SwapTable} {slot : SwapSlot} {contents : Page}

/-- The second table cannot be told from the first one: it has the same pages in the same slots,
and what else it has on its device or in its allocator makes no difference. -/
structure Resembles (swap other : SwapTable) : Prop where
  wellFormed : swap.WellFormed
  wellFormed' : other.WellFormed
  slots : swap.slots.Tried other.slots
  device : swap.device.Twins other.device
  kept : ∀ slot, swap.isAllocated slot = true → other.page slot = swap.page slot

def view (swap : SwapTable) : Nat × Nat × (SwapSlot → Bool) :=
  (swap.capacity, swap.used, swap.isAllocated)

/-- Carries out one call after the other. Of each one the answer is noted, and what the table says
of itself afterwards. -/
def play (swap : SwapTable) :
    List Operation → Run (List (Answer × Nat × Nat × (SwapSlot → Bool)))
  | [] => return []
  | operation :: rest => do
    let (answer, after) ← swap.step operation
    return (answer, after.view) :: (← after.play rest)

theorem release_outcome (wellFormed : swap.WellFormed) :
    (swap.release slot).Satisfies (fun _ => True) fun released =>
      released.WellFormed ∧ released.page = swap.page ∧
        ∀ other, released.isAllocated other = true ↔
          other ≠ slot ∧ swap.isAllocated other = true := by
  by_cases allocated : swap.isAllocated slot = true
  · exact release_satisfies wellFormed allocated
  · have stops : (swap.slots.release slot).Satisfies (fun _ => True) fun _ => False :=
      .bind .required fun _ allocated' => absurd allocated' allocated
    exact .bind stops fun _ => False.elim

theorem load_outcome (wellFormed : swap.WellFormed) (dest : Page) :
    (swap.load slot dest).Satisfies (fun _ => True) fun (_, _, loaded) =>
      loaded.WellFormed ∧ loaded.page = swap.page ∧
        ∀ other, loaded.isAllocated other = true → swap.isAllocated other = true := by
  by_cases allocated : swap.isAllocated slot = true
  · refine (load_satisfies wellFormed allocated dest).mono ?_
    rintro ⟨result, filled, loaded⟩ ⟨wellFormed', pages, outcome⟩
    refine ⟨wellFormed', pages, fun other inUse => ?_⟩
    cases result with
    | ok _ => exact ((outcome.2 other).mp inUse).2
    | error cause => exact (outcome other).mp inUse
  · exact .bind (.lift .required) fun _ allocated' => absurd allocated' allocated

namespace Resembles

theorem view_eq (resembles : swap.Resembles other) : other.view = swap.view := by
  unfold view
  exact Prod.ext resembles.slots.capacity_eq
    (Prod.ext resembles.slots.used_eq resembles.slots.isAllocated_eq)

theorem isAllocated_eq (resembles : swap.Resembles other) : other.isAllocated = swap.isAllocated :=
  resembles.slots.isAllocated_eq

/-- Both find the same slot, and the device fails or does not fail on the same sector. -/
theorem store_alike (resembles : swap.Resembles other) (contents : Page) :
    (swap.store contents).Alike (SameAnswer fun left right =>
      left.slots.Tried right.slots ∧ left.device.Twins right.device) (other.store contents) := by
  obtain ⟨_, _, tried, twins, _⟩ := resembles
  unfold SwapTable.store
  refine .bind (.lift tried.allocate) fun answer answer' same => ?_
  match answer, answer', same with
  | none, none, .none => exact .pure ⟨rfl, tried, twins⟩
  | some (slot, taken), some (_, again), .some ⟨rfl, tried'⟩ =>
      dsimp only
      refine .bind (.lift (.refl (firstSector slot))) ?_
      rintro first _ rfl
      have written := twins.writeSectors first contents contents (List.finRange sectorsPerPage)
      unfold SwapDevice.writePage
      generalize swap.device.writeSectors first contents _ = write at written ⊢
      generalize other.device.writeSectors first contents _ = write' at written ⊢
      obtain ⟨result, device⟩ := write
      obtain ⟨_, device'⟩ := write'
      obtain ⟨rfl, devices⟩ := written
      cases result with
      | error cause =>
          exact .bind (.lift (tried'.release slot)) fun _ _ undone => .pure ⟨rfl, undone, devices⟩
      | ok _ => exact .bind .log fun _ _ _ => .pure ⟨rfl, tried', devices⟩

theorem store (resembles : swap.Resembles other) (contents : Page) :
    (swap.store contents).Alike (SameAnswer Resembles) (other.store contents) := by
  refine ((resembles.store_alike contents).and (store_satisfies resembles.wellFormed contents)
    (store_satisfies resembles.wellFormed' contents)).mono ?_
  rintro ⟨result, stored⟩ ⟨_, stored'⟩
    ⟨⟨rfl, slots, device⟩, ⟨wellFormed, outcome⟩, wellFormed', outcome'⟩
  refine ⟨rfl, wellFormed, wellFormed', slots, device, fun slot inUse => ?_⟩
  cases result with
  | ok taken =>
      obtain ⟨_, allocated, pages⟩ := outcome
      obtain ⟨_, _, pages'⟩ := outcome'
      rw [pages, pages', Function.update_apply, Function.update_apply]
      split
      · rfl
      · rename_i differs
        exact resembles.kept slot (((allocated slot).mp inUse).resolve_left differs)
  | error cause =>
      -- the slots that were written are free, each in its own table
      obtain ⟨allocated, scratch, page, free, pages⟩ := outcome
      obtain ⟨_, scratch', page', free', pages'⟩ := outcome'
      have before := (allocated slot).mp inUse
      rw [pages, pages', Function.update_of_ne, Function.update_of_ne]
      · exact resembles.kept slot before
      · rintro rfl
        simp [before] at free
      · rintro rfl
        rw [resembles.isAllocated_eq] at free'
        simp [before] at free'

theorem release (resembles : swap.Resembles other) (slot : SwapSlot) :
    (swap.release slot).Alike Resembles (other.release slot) := by
  have alike : (swap.release slot).Alike (fun left right =>
      left.slots.Tried right.slots ∧ left.device.Twins right.device) (other.release slot) :=
    .bind (resembles.slots.release slot) fun _ _ tried => .pure ⟨tried, resembles.device⟩
  refine (alike.and (release_outcome resembles.wellFormed)
    (release_outcome resembles.wellFormed')).mono ?_
  rintro released released' ⟨⟨slots, device⟩, ⟨wellFormed, pages, remaining⟩, wellFormed', pages', _⟩
  refine ⟨wellFormed, wellFormed', slots, device, fun other inUse => ?_⟩
  rw [pages, pages']
  exact resembles.kept other ((remaining other).mp inUse).2

theorem load_alike (resembles : swap.Resembles other) (slot : SwapSlot) (dest : Page) :
    (swap.load slot dest).Alike (fun left right => left.1 = right.1 ∧ left.2.1 = right.2.1 ∧
      left.2.2.slots.Tried right.2.2.slots ∧ left.2.2.device.Twins right.2.2.device)
      (other.load slot dest) := by
  have required : (liftM (require (swap.isAllocated slot) (.loadOfFreeSlot slot)) : Run Unit).Alike
      (fun _ _ => swap.isAllocated slot = true)
      (liftM (require (swap.isAllocated slot) (.loadOfFreeSlot slot))) :=
    (Run.Alike.lift (.and .require .required .any)).mono fun _ _ both => both.2.1
  unfold SwapTable.load
  rw [resembles.isAllocated_eq]
  refine .bind required fun _ _ allocated => ?_
  rw [resembles.wellFormed.firstSector_eq (resembles.wellFormed.lt_capacity allocated)]
  have located : Checked.Alike
      (fun first last => first = slot.value * sectorsPerPage ∧ last = first)
      (.ok (slot.value * sectorsPerPage)) (.ok (slot.value * sectorsPerPage)) := ⟨rfl, rfl⟩
  refine .bind (.lift located) ?_
  rintro _ _ ⟨rfl, rfl⟩
  rw [resembles.device.readPage_eq (resembles.kept slot allocated)]
  generalize swap.device.readPage (slot.value * sectorsPerPage) dest = read
  obtain ⟨result, filled⟩ := read
  cases result with
  | error cause => exact .pure ⟨rfl, rfl, resembles.slots, resembles.device⟩
  | ok _ =>
      refine .bind (.lift (resembles.slots.release slot)) fun _ _ tried => ?_
      exact .bind .log fun _ _ _ => .pure ⟨rfl, rfl, tried, resembles.device⟩

theorem load (resembles : swap.Resembles other) (slot : SwapSlot) (dest : Page) :
    (swap.load slot dest).Alike (fun left right => left.1 = right.1 ∧ left.2.1 = right.2.1 ∧
      left.2.2.Resembles right.2.2) (other.load slot dest) := by
  refine ((resembles.load_alike slot dest).and (load_outcome resembles.wellFormed dest)
    (load_outcome resembles.wellFormed' dest)).mono ?_
  rintro ⟨result, filled, loaded⟩ ⟨_, _, loaded'⟩
    ⟨⟨rfl, rfl, slots, device⟩, ⟨wellFormed, pages, remaining⟩, wellFormed', pages', _⟩
  refine ⟨rfl, rfl, wellFormed, wellFormed', slots, device, fun other inUse => ?_⟩
  rw [pages, pages']
  exact resembles.kept other (remaining other inUse)

theorem setFailing (resembles : swap.Resembles other) (reads writes : List Nat) :
    (swap.setFailing reads writes).Resembles (other.setFailing reads writes) := by
  obtain ⟨wellFormed, wellFormed', slots, ⟨written, twins⟩, kept⟩ := resembles
  refine ⟨⟨wellFormed.slots, wellFormed.sectors⟩, ⟨wellFormed'.slots, wellFormed'.sectors⟩, slots,
    ⟨written, ?_⟩, ?_⟩
  · unfold SwapTable.setFailing
    rw [twins]
  · rw [setFailing_page, setFailing_page]
    exact kept

theorem step (resembles : swap.Resembles other) (operation : Operation) :
    (swap.step operation).Alike (SameAnswer Resembles) (other.step operation) := by
  cases operation with
  | store contents =>
      refine .bind (resembles.store contents) ?_
      rintro ⟨result, after⟩ ⟨_, after'⟩ ⟨rfl, resembles'⟩
      exact .pure ⟨rfl, resembles'⟩
  | load slot dest =>
      refine .bind (resembles.load slot dest) ?_
      rintro ⟨result, filled, after⟩ ⟨_, _, after'⟩ ⟨rfl, rfl, resembles'⟩
      exact .pure ⟨rfl, resembles'⟩
  | release slot =>
      exact .bind (.lift (resembles.release slot)) fun _ _ resembles' => .pure ⟨rfl, resembles'⟩
  | setFailing reads writes => exact .pure ⟨rfl, resembles.setFailing reads writes⟩

/-- Nothing that is done with the tables tells them apart. -/
theorem play_eq (resembles : swap.Resembles other) (operations : List Operation) :
    other.play operations = swap.play operations := by
  refine (Run.Alike.eq ?_).symm
  induction operations generalizing swap other with
  | nil => exact .pure rfl
  | cons operation rest ih =>
      refine .bind (resembles.step operation) ?_
      rintro ⟨answer, after⟩ ⟨_, after'⟩ ⟨rfl, resembles'⟩
      refine .bind (ih resembles') ?_
      rintro transcript _ rfl
      rw [resembles'.view_eq]
      exact .pure rfl

end Resembles

theorem store_undone (swap : SwapTable) (contents : Page) :
    (swap.store contents).Satisfies (fun _ => True) fun (result, after) =>
      swap.device.Twins after.device ∧ ∀ cause, result = .error cause →
        swap.slots.allocate = .ok none ∧ cause = .swapFull ∧ after = swap ∨
        ∃ reason slot taken, cause = .io reason ∧
          swap.slots.allocate = .ok (some (slot, taken)) ∧
          taken.release slot = .ok after.slots := by
  have answers : (liftM swap.slots.allocate : Run _).Satisfies (fun _ => True) fun answer =>
      swap.slots.allocate = .ok answer := .lift (.of_errors fun _ _ => trivial)
  unfold store
  refine .bind answers fun answer found => ?_
  cases answer with
  | none =>
      refine .pure ⟨⟨_, rfl⟩, ?_⟩
      rintro _ ⟨⟩
      exact .inl ⟨found, rfl, rfl⟩
  | some allocation =>
      obtain ⟨slot, taken⟩ := allocation
      refine .bind .any fun first _ => ?_
      have twins := swap.device.twins_writeSectors first contents (List.finRange sectorsPerPage)
      unfold SwapDevice.writePage
      generalize swap.device.writeSectors first contents _ = write at twins ⊢
      obtain ⟨result, device⟩ := write
      cases result with
      | error reason =>
          have undone : (taken.release slot).Satisfies (fun _ => True) fun released =>
              taken.release slot = .ok released := .of_errors fun _ _ => trivial
          refine .bind (.lift undone) fun released released' => .pure ⟨twins, ?_⟩
          rintro _ ⟨⟩
          exact .inr ⟨reason, slot, taken, rfl, found, released'⟩
      | ok _ =>
          refine .bind .log fun _ _ => .pure ⟨twins, ?_⟩
          rintro _ ⟨⟩

theorem resembles_of_failed (wellFormed : swap.WellFormed) {cause : VmError}
    (fails : (swap.store contents).Yields (.error cause, after)) : swap.Resembles after := by
  obtain ⟨twins, undone⟩ := (swap.store_undone contents).of_yields fails
  have outcome : (swap.store contents).Satisfies (fun _ => True) _ :=
    store_satisfies wellFormed contents
  obtain ⟨wellFormed', _, scratch, page, free, pages⟩ := outcome.of_yields fails
  refine ⟨wellFormed, wellFormed', ?_, twins, fun slot inUse => ?_⟩
  · rcases undone cause rfl with ⟨_, _, rfl⟩ | ⟨_, slot, taken, _, found, undone⟩
    · exact .inl rfl
    · exact wellFormed.slots.tried_of_undone found undone
  · rw [pages, Function.update_of_ne]
    rintro rfl
    simp [inUse] at free

/-- Whether a store fails for want of slots or because the device does, the table is from then on
as it would be without it: it says the same of itself, and whatever is done with it, every call
has the same answer and logs the same. All that may differ within is a slot handed out for the
first time, which is alone on the stack, and what free slots hold on the device. -/
theorem Traced.failed_store_unseen {device : SwapDevice} {trace : List (Operation × Answer)}
    (numbered : device.sectorCount < 0x100000000) (traced : Traced device trace swap)
    {cause : VmError} (fails : (swap.store contents).Yields (.error cause, after)) :
    (cause = .swapFull ∧ swap.used = swap.capacity ∧ after = swap ∨
      (∃ reason, cause = .io reason) ∧ (after.slots = swap.slots ∨ swap.slots.free = [] ∧
        after.slots =
          { swap.slots with tail := swap.slots.tail + 1, free := [⟨swap.slots.tail⟩] })) ∧
    after.view = swap.view ∧
    ∀ operations, after.play operations = swap.play operations := by
  have wellFormed := (traced.recalls numbered).wellFormed
  have resembles := resembles_of_failed wellFormed fails
  refine ⟨?_, resembles.view_eq, resembles.play_eq⟩
  rcases ((swap.store_undone contents).of_yields fails).2 cause rfl with
    ⟨full, rfl, rfl⟩ | ⟨reason, slot, taken, rfl, found, undone⟩
  · exact .inl ⟨rfl, wellFormed.slots.allocate_eq_none.mp full, rfl⟩
  · refine .inr ⟨⟨reason, rfl⟩, ?_⟩
    exact (wellFormed.slots.undone_eq found undone).imp_right fun ⟨empty, _, ahead⟩ => ⟨empty, ahead⟩

/-- The disk ends within the second slot, so that the second store fails halfway. It leaves another
allocator, and nothing that follows shows it. -/
theorem second_store_unseen : ∃ trace swap after cause,
    Traced { disk := { size := 12 }, sectorCount := 24 } trace swap ∧
      (swap.store Page.zero).Yields (.error cause, after) ∧ after.slots ≠ swap.slots ∧
      ∀ operations, after.play operations = swap.play operations := by
  let device : SwapDevice := { disk := { size := 12 }, sectorCount := 24 }
  have passes : (new device).passes (fun start =>
      (start.step (.store (Vector.replicate pageSize 7))).passes fun stored =>
        (stored.2.store Page.zero).passes fun refused =>
          !refused.1.isOk && decide (refused.2.slots ≠ stored.2.slots)) = true := by
    decide +kernel
  simp only [Run.passes_iff, Bool.and_eq_true, Prod.exists, decide_eq_true_eq] at passes
  obtain ⟨start, made, answer, swap, first, result, after, yields, refused, differs⟩ := passes
  have traced := (Traced.new made).step first trivial
  cases result with
  | ok slot => cases refused
  | error cause =>
      exact ⟨_, swap, after, cause, traced, yields, differs,
        (traced.failed_store_unseen (by decide) yields).2.2⟩

end SwapTable
end DemandPaging
