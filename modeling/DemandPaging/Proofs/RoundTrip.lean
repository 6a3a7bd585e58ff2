import DemandPaging.Proofs.Swap

/-!
Round trips through swap. A trace lists the calls made to a swap table since it was set up,
each with its answer, the latest one first. Whatever fails on the way, an allocated slot holds
what was stored in it last.
-/

namespace DemandPaging
namespace SwapTable

/-- A call to a swap table. Its device may also come to fail on other sectors. -/
inductive Operation where
  | store (contents : Page)
  | load (slot : SwapSlot) (dest : Page)
  | release (slot : SwapSlot)
  | setFailing (reads writes : List Nat)

inductive Answer where
  | stored (result : Except VmError SwapSlot)
  /-- A load that fails may have changed the page it was to fill. -/
  | loaded (result : Except VmError Unit) (dest : Page)
  | done

/-- Only allocated slots are loaded and released. -/
def Operation.Legal (swap : SwapTable) : Operation → Prop
  | .load slot _ => swap.isAllocated slot = true
  | .release slot => swap.isAllocated slot = true
  | .store _ => True
  | .setFailing _ _ => True

def step (swap : SwapTable) : Operation → Run (Answer × SwapTable)
  | .store contents => do
    let (result, after) ← swap.store contents
    return (.stored result, after)
  | .load slot dest => do
    let (result, dest, after) ← swap.load slot dest
    return (.loaded result dest, after)
  | .release slot => do
    return (.done, ← swap.release slot)
  | .setFailing reads writes => return (.done, swap.setFailing reads writes)

/-- The slot that a call has filled, and with what. -/
def filled? : Operation × Answer → Option (SwapSlot × Page)
  | (.store contents, .stored (.ok slot)) => some (slot, contents)
  | _ => none

/-- What was stored by the latest call that was answered with this slot. -/
def lastStored (trace : List (Operation × Answer)) (slot : SwapSlot) : Option Page :=
  (trace.filterMap filled?).lookup slot

/-- A table that was set up over a device and then called as the trace says. -/
inductive Traced (device : SwapDevice) : List (Operation × Answer) → SwapTable → Prop
  | new {swap : SwapTable} (made : (SwapTable.new device).Yields swap) : Traced device [] swap
  | step {trace : List (Operation × Answer)} {swap after : SwapTable} {operation : Operation}
      {answer : Answer} (traced : Traced device trace swap)
      (yields : (swap.step operation).Yields (answer, after)) (legal : operation.Legal swap) :
      Traced device ((operation, answer) :: trace) after

/-- A slot takes up a page of sectors from its first one on. -/
def Occupies (slot : SwapSlot) (sector : Nat) : Prop :=
  ∃ first, firstSector slot = .ok first ∧
    ∃ index : Fin sectorsPerPage, sector = first + index.val

variable {device : SwapDevice} {trace : List (Operation × Answer)} {swap : SwapTable}
  {slot : SwapSlot} {sector : Nat} {tolerated : Violation → Prop}

theorem lastStored_unfilled {call : Operation × Answer} (unfilled : filled? call = none)
    (slot : SwapSlot) : lastStored (call :: trace) slot = lastStored trace slot := by
  unfold lastStored
  rw [List.filterMap_cons_none unfilled]

theorem lastStored_filled {call : Operation × Answer} {slot : SwapSlot} {contents : Page}
    (fills : filled? call = some (slot, contents)) (other : SwapSlot) :
    lastStored (call :: trace) other =
      if other = slot then some contents else lastStored trace other := by
  unfold lastStored
  rw [List.filterMap_cons_some fills]
  by_cases same : other = slot
  · simp [same]
  · have differs : (other == slot) = false := by simp [same]
    rw [List.lookup_cons, differs, if_neg same]

theorem contents_of_filled {contents page : Page} {answer : Answer} {slot : SwapSlot}
    (fills : filled? (.store contents, answer) = some (slot, page)) : page = contents := by
  unfold filled? at fills
  split at fills
  · rename_i sent
    cases sent
    cases fills
    rfl
  · cases fills

theorem WellFormed.occupies_iff (wellFormed : swap.WellFormed)
    (inside : slot.value < swap.slots.capacity) :
    Occupies slot sector ↔ sector / sectorsPerPage = slot.value := by
  unfold Occupies
  rw [wellFormed.firstSector_eq inside]
  constructor
  · rintro ⟨first, found, index, rfl⟩
    cases found
    have := index.isLt
    unfold sectorsPerPage pageSize sectorSize at *
    omega
  · intro place
    have within : sector % sectorsPerPage < sectorsPerPage := Nat.mod_lt sector (by decide)
    refine ⟨_, rfl, ⟨sector % sectorsPerPage, within⟩, ?_⟩
    rw [← place]
    exact (Nat.div_add_mod' sector sectorsPerPage).symm

theorem WellFormed.sectorAt_eq (wellFormed : swap.WellFormed) {after : SwapTable}
    (inside : slot.value < swap.slots.capacity) (same : after.page slot = swap.page slot)
    (occupied : Occupies slot sector) :
    after.device.sectorAt sector = swap.device.sectorAt sector := by
  obtain ⟨first, found, index, rfl⟩ := occupied
  cases found.symm.trans (wellFormed.firstSector_eq inside)
  rw [← SwapDevice.sector_pageAt, ← SwapDevice.sector_pageAt]
  exact congrArg (fun page => Page.sector page index) same

/-- Loading writes nothing, and a load that fails changes nothing at all. -/
theorem load_unchanged (swap : SwapTable) (slot : SwapSlot) (dest : Page) :
    (swap.load slot dest).Satisfies (fun _ => True) fun (result, _, after) =>
      after.device = swap.device ∧ ∀ cause, result = .error cause → after = swap := by
  unfold load
  refine .bind .any fun _ _ => .bind .any fun first _ => ?_
  generalize swap.device.readPage first dest = read
  obtain ⟨result, filled⟩ := read
  cases result with
  | error cause => exact .pure ⟨rfl, fun _ _ => rfl⟩
  | ok _ => exact .bind .any fun _ _ => .bind .any fun _ _ => .pure ⟨rfl, fun _ h => nomatch h⟩

/-- A page goes to a free slot, so none of the sectors in use is written, even if the device
fails. A failure leaves the same slots allocated. -/
theorem WellFormed.store_apart (wellFormed : swap.WellFormed) (contents : Page) :
    (swap.store contents).Satisfies tolerated fun (result, after) =>
      (∀ slot sector, swap.isAllocated slot = true → Occupies slot sector →
        after.device.sectorAt sector = swap.device.sectorAt sector) ∧
      ∀ cause, result = .error cause →
        ∀ slot, after.isAllocated slot = true ↔ swap.isAllocated slot = true := by
  refine (store_satisfies wellFormed contents).mono ?_
  rintro ⟨result, after⟩ ⟨-, outcome⟩
  obtain ⟨scratch, page, free, changed⟩ : ∃ scratch page, swap.isAllocated scratch = false ∧
      after.page = Function.update swap.page scratch page := by
    cases result with
    | ok slot => exact ⟨slot, contents, outcome.1, outcome.2.2⟩
    | error cause => exact outcome.2
  refine ⟨?_, ?_⟩
  · intro slot sector allocated occupied
    have apart : slot ≠ scratch := by
      rintro rfl
      simp [free] at allocated
    have same : after.page slot = swap.page slot := by
      rw [changed, Function.update_of_ne apart]
    exact wellFormed.sectorAt_eq (wellFormed.lt_capacity allocated) same occupied
  · rintro cause rfl
    exact outcome.1

/-- Every allocated slot holds what was stored in it last. -/
structure Recalls (trace : List (Operation × Answer)) (swap : SwapTable) : Prop where
  wellFormed : swap.WellFormed
  kept : ∀ slot, swap.isAllocated slot = true → lastStored trace slot = some (swap.page slot)

namespace Recalls

theorem of_unfilled (recalls : Recalls trace swap) {call : Operation × Answer} {after : SwapTable}
    (unfilled : filled? call = none) (wellFormed : after.WellFormed)
    (same : ∀ slot, after.isAllocated slot = true →
      swap.isAllocated slot = true ∧ after.page slot = swap.page slot) :
    Recalls (call :: trace) after := by
  refine ⟨wellFormed, ?_⟩
  intro slot allocated
  obtain ⟨before, page⟩ := same slot allocated
  rw [lastStored_unfilled unfilled, page]
  exact recalls.kept slot before

theorem step_satisfies (recalls : Recalls trace swap) {operation : Operation}
    (legal : operation.Legal swap) :
    (swap.step operation).Satisfies (fun _ => False) fun (answer, after) =>
      Recalls ((operation, answer) :: trace) after := by
  have wellFormed := recalls.wellFormed
  cases operation with
  | store contents =>
      refine .bind (store_satisfies wellFormed contents) ?_
      rintro ⟨result, after⟩ ⟨wellFormed', outcome⟩
      apply Run.Satisfies.pure
      cases result with
      | error cause =>
          obtain ⟨allocated, scratch, page, free, changed⟩ := outcome
          apply recalls.of_unfilled rfl wellFormed'
          intro slot inUse
          have before := (allocated slot).mp inUse
          refine ⟨before, ?_⟩
          rw [changed, Function.update_of_ne]
          rintro rfl
          simp [free] at before
      | ok slot =>
          obtain ⟨-, allocated, changed⟩ := outcome
          refine ⟨wellFormed', ?_⟩
          intro other inUse
          rw [lastStored_filled rfl, changed]
          by_cases same : other = slot
          · rw [if_pos same, same, Function.update_self]
          · rw [if_neg same, Function.update_of_ne same]
            exact recalls.kept other (((allocated other).mp inUse).resolve_left same)
  | load slot dest =>
      refine .bind (load_satisfies wellFormed legal dest) ?_
      rintro ⟨result, filled, after⟩ ⟨wellFormed', pages, outcome⟩
      apply Run.Satisfies.pure
      apply recalls.of_unfilled rfl wellFormed'
      intro other inUse
      refine ⟨?_, congrFun pages other⟩
      cases result with
      | error cause => exact (outcome other).mp inUse
      | ok _ => exact ((outcome.2 other).mp inUse).2
  | release slot =>
      refine .bind (.lift (release_satisfies wellFormed legal)) ?_
      rintro after ⟨wellFormed', pages, remaining⟩
      apply Run.Satisfies.pure
      apply recalls.of_unfilled rfl wellFormed'
      intro other inUse
      exact ⟨((remaining other).mp inUse).2, congrFun pages other⟩
  | setFailing reads writes =>
      have same : ∀ slot, (swap.setFailing reads writes).isAllocated slot = true →
          swap.isAllocated slot = true ∧
            (swap.setFailing reads writes).page slot = swap.page slot :=
        fun slot inUse => ⟨inUse, congrFun (setFailing_page swap reads writes) slot⟩
      exact .pure (recalls.of_unfilled rfl ⟨wellFormed.slots, wellFormed.sectors⟩ same)

end Recalls

theorem Traced.recalls (numbered : device.sectorCount < 0x100000000)
    (traced : Traced device trace swap) : Recalls trace swap := by
  induction traced with
  | new made =>
      cases made
      refine ⟨new_wellFormed numbered, fun slot allocated => ?_⟩
      exact absurd ((SlotAllocator.isAllocated_new _ slot).symm.trans allocated) Bool.false_ne_true
  | step traced yields legal ih =>
      exact (ih.step_satisfies legal).of_yields yields

/-- However loads and stores fail on the way, loading an allocated slot either gives what was
stored in it last or changes nothing, and a page is stored beside the sectors in use. -/
theorem Traced.round_trip (numbered : device.sectorCount < 0x100000000)
    (traced : Traced device trace swap) :
    (∀ slot dest, swap.isAllocated slot = true → ∃ result filled after,
      (swap.load slot dest).Yields (result, filled, after) ∧ after.device = swap.device ∧
        match result with
        | .ok () => lastStored trace slot = some filled
        | .error _ => after = swap) ∧
      (∀ contents, ∃ result after, (swap.store contents).Yields (result, after) ∧
        (∀ slot sector, swap.isAllocated slot = true → Occupies slot sector →
          after.device.sectorAt sector = swap.device.sectorAt sector) ∧
        ∀ cause, result = .error cause →
          ∀ slot, after.isAllocated slot = true ↔ swap.isAllocated slot = true) ∧
      (∀ slot, swap.isAllocated slot = true → ∃ after, swap.release slot = .ok after) ∧
      (∀ slot other sector, swap.isAllocated slot = true → swap.isAllocated other = true →
        Occupies slot sector → Occupies other sector → slot = other) ∧
      ∀ slot, slot.value < swap.capacity →
        firstSector slot = .ok (slot.value * sectorsPerPage) ∧
          ∀ sector, Occupies slot sector → sector < 0x100000000 := by
  obtain ⟨wellFormed, kept⟩ := traced.recalls numbered
  refine ⟨?loads, ?stores, ?releases, ?shares, ?located⟩
  case loads =>
    intro slot dest allocated
    have spec : (swap.load slot dest).Satisfies (fun _ => False) _ :=
      (load_satisfies wellFormed allocated dest).and (load_unchanged swap slot dest)
    obtain ⟨⟨result, filled, after⟩, yields⟩ := spec.exists_yields
    obtain ⟨⟨-, -, outcome⟩, device, unchanged⟩ := spec.of_yields yields
    refine ⟨result, filled, after, yields, device, ?_⟩
    cases result with
    | error cause => exact unchanged cause rfl
    | ok _ => exact outcome.1 ▸ kept slot allocated
  case stores =>
    intro contents
    have spec : (swap.store contents).Satisfies (fun _ => False) _ :=
      wellFormed.store_apart contents
    obtain ⟨⟨result, after⟩, yields⟩ := spec.exists_yields
    exact ⟨result, after, yields, spec.of_yields yields⟩
  case releases =>
    intro slot allocated
    obtain ⟨after, done, -⟩ := (release_satisfies wellFormed allocated).exists_ok
    exact ⟨after, done⟩
  case shares =>
    intro slot other sector allocated allocated' occupied occupied'
    have place := (wellFormed.occupies_iff (wellFormed.lt_capacity allocated)).mp occupied
    have place' := (wellFormed.occupies_iff (wellFormed.lt_capacity allocated')).mp occupied'
    exact Number.ext (place.symm.trans place')
  case located =>
    intro slot inside
    refine ⟨wellFormed.firstSector_eq inside, fun sector occupied => ?_⟩
    have place := (wellFormed.occupies_iff inside).mp occupied
    have bound := wellFormed.sectors
    unfold capacity sectorsPerPage pageSize sectorSize at *
    omega

/-- The disk ends within the second slot, so that the second store fails halfway, and the first
load fails on a sector of the first slot. The second load gives what was stored. -/
theorem round_trip_second_load : ∃ trace swap after,
    Traced { disk := { size := 12 }, sectorCount := 24 } trace swap ∧
      (swap.load ⟨0⟩ Page.zero).Yields (.ok (), Vector.replicate pageSize 7, after) := by
  let device : SwapDevice := { disk := { size := 12 }, sectorCount := 24 }
  let sevens : Page := Vector.replicate pageSize 7
  have passes : (new device).passes (fun start =>
      (start.step (.store sevens)).passes fun stored =>
        (stored.2.step (.store Page.zero)).passes fun refused =>
          (refused.2.step (.setFailing [3] [])).passes fun failing =>
            (failing.2.step (.load ⟨0⟩ Page.zero)).passes fun failed =>
              (failed.2.step (.setFailing [] [])).passes fun restored =>
                failing.2.isAllocated ⟨0⟩ && restored.2.isAllocated ⟨0⟩ &&
                  ((filled? (.store sevens, stored.1)).map Prod.fst == some ⟨0⟩) &&
                  (filled? (.store Page.zero, refused.1)).isNone &&
                  (restored.2.load ⟨0⟩ Page.zero).passes fun loaded => loaded.1.isOk) = true := by
    decide +kernel
  simp only [Run.passes_iff, Bool.and_eq_true, Prod.exists, Option.isNone_iff_eq_none,
    beq_iff_eq] at passes
  obtain ⟨start, made, stored, one, first, refused, two, second, changed, three, third, failed,
    four, fourth, restored, five, fifth, ⟨⟨⟨allocated, allocated'⟩, taken⟩, unfilled⟩, result, _, _,
    yields, done⟩ := passes
  have traced := ((((Traced.new made).step first trivial).step second trivial).step third
    trivial).step fourth allocated |>.step fifth trivial
  obtain ⟨⟨slot, contents⟩, fills, rfl⟩ := Option.map_eq_some_iff.mp taken
  obtain rfl := contents_of_filled fills
  obtain ⟨result', filled, after, yields', -, outcome⟩ :=
    (traced.round_trip (by decide)).1 ⟨0⟩ Page.zero allocated'
  obtain ⟨rfl, -⟩ := Prod.mk.inj (Except.ok.inj (yields.symm.trans yields'))
  cases result with
  | error cause => cases done
  | ok _ =>
      dsimp only at outcome
      rw [lastStored_unfilled rfl, lastStored_unfilled rfl, lastStored_unfilled rfl,
        lastStored_unfilled unfilled, lastStored_filled fills, if_pos rfl] at outcome
      rw [← Option.some.inj outcome] at yields'
      exact ⟨_, five, after, traced, yields'⟩

end SwapTable
end DemandPaging
