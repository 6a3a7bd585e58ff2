import Mathlib.Order.Bounds.Basic
import Mathlib.Data.List.Perm.Subperm
import DemandPaging.Proofs.Ownership

/-!
Which slots an allocator hands out. A history lists the calls made to it since it was set up,
the latest one first. Which slots are in use, which one comes next and how far the device is
used at all can be told from the history alone.
-/

namespace DemandPaging
namespace SlotAllocator

/-- A call to an allocator, with its answer. -/
inductive Call where
  | allocate (answer : Option SwapSlot)
  | release (slot : SwapSlot)
deriving DecidableEq

/-- An allocator that was set up for so many slots and then called as the history says. -/
inductive Traced (capacity : Nat) : List Call → SlotAllocator → Prop
  | new : Traced capacity [] (new capacity)
  | given {history : List Call} {slots after : SlotAllocator} {slot : SwapSlot}
      (traced : Traced capacity history slots)
      (found : slots.allocate = .ok (some (slot, after))) :
      Traced capacity (.allocate (some slot) :: history) after
  | refused {history : List Call} {slots : SlotAllocator} (traced : Traced capacity history slots)
      (full : slots.allocate = .ok none) : Traced capacity (.allocate none :: history) slots
  | released {history : List Call} {slots after : SlotAllocator} {slot : SwapSlot}
      (traced : Traced capacity history slots) (done : slots.release slot = .ok after) :
      Traced capacity (.release slot :: history) after

/-- The slot that a call hands out or takes back. -/
def Call.slot? : Call → Option SwapSlot
  | .allocate answer => answer
  | .release slot => some slot

/-- The latest call that handed out a slot or took it back. -/
def latest (history : List Call) (slot : SwapSlot) : Option Call :=
  history.find? fun call => call.slot? = some slot

/-- A slot was handed out and not released since. -/
def Held (history : List Call) (slot : SwapSlot) : Prop :=
  latest history slot = some (.allocate (some slot))

/-- A slot was released and not handed out since. -/
def Idle (history : List Call) (slot : SwapSlot) : Prop :=
  latest history slot = some (.release slot)

/-- Of the slots that were released and not handed out since, this one was released last. -/
def LastIdle (history : List Call) (slot : SwapSlot) : Prop :=
  Idle history slot ∧ ∃ later earlier, history = later ++ .release slot :: earlier ∧
    ∀ other, Idle history other → .release other ∉ later

variable {capacity : Nat} {history : List Call} {slots after : SlotAllocator}
  {slot other : SwapSlot}

theorem latest_cons (call : Call) (history : List Call) (slot : SwapSlot) :
    latest (call :: history) slot =
      if call.slot? = some slot then some call else latest history slot := by
  unfold latest
  rw [List.find?_cons]
  by_cases same : call.slot? = some slot <;> simp [same]

@[simp] theorem held_given :
    Held (.allocate (some slot) :: history) other ↔ other = slot ∨ Held history other := by
  unfold Held
  rw [latest_cons]
  by_cases same : other = slot
  · simp [Call.slot?, same]
  · simp [Call.slot?, same, Ne.symm same]

@[simp] theorem idle_given :
    Idle (.allocate (some slot) :: history) other ↔ other ≠ slot ∧ Idle history other := by
  unfold Idle
  rw [latest_cons]
  by_cases same : other = slot
  · simp [Call.slot?, same]
  · simp [Call.slot?, same, Ne.symm same]

@[simp] theorem held_refused : Held (.allocate none :: history) slot ↔ Held history slot := by
  unfold Held
  rw [latest_cons]
  rfl

@[simp] theorem idle_refused : Idle (.allocate none :: history) slot ↔ Idle history slot := by
  unfold Idle
  rw [latest_cons]
  rfl

@[simp] theorem held_released :
    Held (.release slot :: history) other ↔ other ≠ slot ∧ Held history other := by
  unfold Held
  rw [latest_cons]
  by_cases same : other = slot
  · simp [Call.slot?, same]
  · simp [Call.slot?, same, Ne.symm same]

@[simp] theorem idle_released :
    Idle (.release slot :: history) other ↔ other = slot ∨ Idle history other := by
  unfold Idle
  rw [latest_cons]
  by_cases same : other = slot
  · simp [Call.slot?, same]
  · simp [Call.slot?, same, Ne.symm same]

theorem WellFormed.release_eq_ok (wellFormed : slots.WellFormed) :
    slots.release slot = .ok after ↔
      slots.isAllocated slot = true ∧ slots.vacated slot = after := by
  by_cases allocated : slots.isAllocated slot = true
  · rw [wellFormed.release_eq allocated, and_iff_right allocated, Except.ok.injEq]
  · unfold release require
    rw [if_neg allocated]
    constructor
    · intro done
      cases done
    · exact fun ⟨allocated', _⟩ => absurd allocated' allocated

/-- What the fields of an allocator say about the calls so far. -/
structure Records (capacity : Nat) (history : List Call) (slots : SlotAllocator) : Prop where
  wellFormed : slots.WellFormed
  sized : slots.capacity = capacity
  issued : ∀ slot, .allocate (some slot) ∈ history ↔ slot.value < slots.tail
  idle : ∀ slot, slot ∈ slots.free ↔ Idle history slot
  held : ∀ slot, slots.isAllocated slot = true ↔ Held history slot
  /-- Only slots before this one in the stack were released after it. -/
  stacked : ∀ front slot back, slots.free = front ++ slot :: back → ∃ later earlier,
    history = later ++ .release slot :: earlier ∧
      ∀ other, .release other ∈ later → Idle history other → other ∈ front

namespace Records

theorem new (capacity : Nat) : Records capacity [] (.new capacity) := by
  refine ⟨new_wellFormed capacity, capacity_new capacity, ?_, ?_, ?_, ?_⟩
  · exact fun slot => iff_of_false List.not_mem_nil (Nat.not_lt_zero _)
  · exact fun slot => iff_of_false List.not_mem_nil (by simp [Idle, latest])
  · simp [Held, latest]
  · intro front slot back listed
    cases front <;> cases listed

theorem takes (records : Records capacity history slots)
    (found : slots.allocate = .ok (some (slot, after))) :
    after.WellFormed ∧ after.capacity = capacity ∧ ∀ other,
      after.isAllocated other = true ↔ Held (.allocate (some slot) :: history) other := by
  obtain ⟨wellFormed, sized, -, -, allocated⟩ := records.wellFormed.allocate found
  refine ⟨wellFormed, sized.trans records.sized, fun other => ?_⟩
  rw [allocated, records.held, held_given]

theorem reissued (records : Records capacity history slots) {free : List SwapSlot}
    (listed : slots.free = slot :: free) :
    Records capacity (.allocate (some slot) :: history)
      ({ slots with free }.occupied slot) := by
  obtain ⟨wellFormed, sized, held⟩ := records.takes
    (records.wellFormed.allocate_eq_some.mpr ⟨_, next?_eq_some.mpr (.inl ⟨free, listed, rfl⟩), rfl⟩)
  have nodup := records.wellFormed.nodup
  rw [listed] at nodup
  obtain ⟨unlisted, -⟩ := List.nodup_cons.mp nodup
  have small := records.wellFormed.below slot (listed ▸ List.mem_cons_self)
  refine ⟨wellFormed, sized, ?_, ?_, held, ?_⟩
  · intro other
    rw [List.mem_cons, records.issued]
    refine ⟨?_, .inr⟩
    rintro (same | before)
    · cases same
      exact small
    · exact before
  · intro other
    rw [idle_given, ← records.idle, listed, List.mem_cons]
    change other ∈ free ↔ _
    constructor
    · intro inside
      refine ⟨?_, .inr inside⟩
      rintro rfl
      exact unlisted inside
    · exact fun ⟨differs, inside⟩ => inside.resolve_left differs
  · intro front other back split
    have split' : slots.free = (slot :: front) ++ other :: back :=
      listed.trans (congrArg (slot :: ·) split)
    obtain ⟨later, earlier, rfl, recent⟩ := records.stacked _ _ _ split'
    refine ⟨.allocate (some slot) :: later, earlier, rfl, ?_⟩
    intro third called idle
    obtain ⟨differs, idle'⟩ := idle_given.mp idle
    have called' : Call.release third ∈ later := by simpa using called
    exact (List.mem_cons.mp (recent third called' idle')).resolve_left differs

theorem extended (records : Records capacity history slots) (empty : slots.free = [])
    (room : slots.tail < slots.capacity) :
    Records capacity (.allocate (some ⟨slots.tail⟩) :: history)
      ({ slots with tail := slots.tail + 1 }.occupied ⟨slots.tail⟩) := by
  obtain ⟨wellFormed, sized, held⟩ := records.takes (records.wellFormed.allocate_eq_some.mpr
    ⟨_, next?_eq_some.mpr (.inr ⟨empty, room, rfl, rfl⟩), rfl⟩)
  refine ⟨wellFormed, sized, ?_, ?_, held, ?_⟩
  · intro other
    rw [List.mem_cons, records.issued, Call.allocate.injEq, Option.some.injEq, Number.ext_iff]
    change _ ↔ other.value < slots.tail + 1
    dsimp only
    omega
  · intro other
    rw [idle_given, ← records.idle]
    change other ∈ slots.free ↔ _
    simp [empty]
  · intro front other back split
    change slots.free = _ at split
    rw [empty] at split
    cases front <;> cases split

theorem given (records : Records capacity history slots)
    (found : slots.allocate = .ok (some (slot, after))) :
    Records capacity (.allocate (some slot) :: history) after := by
  obtain ⟨left, next, rfl⟩ := records.wellFormed.allocate_eq_some.mp found
  rcases next?_eq_some.mp next with ⟨free, listed, rfl⟩ | ⟨empty, room, rfl, rfl⟩
  · exact records.reissued listed
  · exact records.extended empty room

theorem refused (records : Records capacity history slots) :
    Records capacity (.allocate none :: history) slots := by
  obtain ⟨wellFormed, sized, issued, idle, held, stacked⟩ := records
  refine ⟨wellFormed, sized, ?_, ?_, ?_, ?_⟩
  · simpa using issued
  · simpa using idle
  · simpa using held
  · intro front slot back split
    obtain ⟨later, earlier, rfl, recent⟩ := stacked front slot back split
    refine ⟨.allocate none :: later, earlier, rfl, ?_⟩
    intro other called idle
    exact recent other (by simpa using called) (idle_refused.mp idle)

theorem released (records : Records capacity history slots)
    (done : slots.release slot = .ok after) :
    Records capacity (.release slot :: history) after := by
  obtain ⟨allocated, same⟩ := records.wellFormed.release_eq_ok.mp done
  obtain ⟨_, done', wellFormed, sized, remaining⟩ :=
    (records.wellFormed.release_satisfies allocated).exists_ok
  cases done.symm.trans done'
  subst same
  refine ⟨wellFormed, sized.trans records.sized, ?_, ?_, ?_, ?_⟩
  · intro other
    change _ ↔ other.value < slots.tail
    simpa using records.issued other
  · intro other
    rw [idle_released, ← records.idle]
    exact List.mem_cons
  · intro other
    rw [remaining, records.held, held_released]
  · intro front other back split
    cases front with
    | nil =>
        cases split
        exact ⟨[], history, rfl, fun third called => absurd called List.not_mem_nil⟩
    | cons first front =>
        obtain ⟨rfl, split'⟩ := List.cons.inj split
        obtain ⟨later, earlier, rfl, recent⟩ := records.stacked front other back split'
        refine ⟨.release slot :: later, earlier, rfl, ?_⟩
        intro third called idle
        by_cases same : third = slot
        · exact List.mem_cons.mpr (.inl same)
        · have called' : Call.release third ∈ later := by simpa [same] using called
          exact List.mem_cons_of_mem _
            (recent third called' ((idle_released.mp idle).resolve_left same))

theorem lastIdle (records : Records capacity history slots) {free : List SwapSlot}
    (listed : slots.free = slot :: free) : LastIdle history slot := by
  refine ⟨(records.idle slot).mp (listed ▸ List.mem_cons_self), ?_⟩
  obtain ⟨later, earlier, split, recent⟩ := records.stacked [] slot free listed
  exact ⟨later, earlier, split, fun other idle called =>
    absurd (recent other called idle) List.not_mem_nil⟩

theorem exists_held (records : Records capacity history slots) : ∃ held : List SwapSlot,
    held.Nodup ∧ (∀ slot, slot ∈ held ↔ Held history slot) ∧ slots.used = held.length := by
  let issued : List SwapSlot := (List.range slots.tail).map fun i => ⟨i⟩
  have nodup : (issued.filter (slots.isAllocated ·)).Nodup := by
    refine List.Nodup.filter _ ?_
    exact List.Nodup.map_on (fun i _ j _ same => congrArg Number.value same) List.nodup_range
  have reported : ∀ slot, slot ∈ issued.filter (slots.isAllocated ·) ↔
      slots.isAllocated slot = true := by
    intro slot
    rw [List.mem_filter, and_iff_right_iff_imp]
    intro allocated
    have small := ((records.wellFormed.live slot).mp allocated).1
    exact List.mem_map.mpr ⟨slot.value, List.mem_range.mpr small, rfl⟩
  exact ⟨_, nodup, fun slot => (reported slot).trans (records.held slot),
    records.wellFormed.used_eq nodup reported⟩

theorem allocate_eq_none (records : Records capacity history slots) :
    slots.allocate = .ok none ↔ slots.used = capacity := by
  rw [records.wellFormed.allocate_eq_none, records.sized]

end Records

theorem Traced.records (traced : Traced capacity history slots) :
    Records capacity history slots := by
  induction traced with
  | new => exact .new capacity
  | given _ found ih => exact ih.given found
  | refused _ _ ih => exact ih.refused
  | released _ done ih => exact ih.released done

/-- How many slots were used at the start and after each of the calls. -/
def usage (capacity : Nat) (history : List Call) : Set Nat :=
  {used | ∃ earlier before, earlier <:+ history ∧ Traced capacity earlier before ∧
    before.used = used}

theorem usage_mono (call : Call) {used : Nat} (reached : used ∈ usage capacity history) :
    used ∈ usage capacity (call :: history) := by
  obtain ⟨earlier, before, suffix, traced, same⟩ := reached
  exact ⟨earlier, before, suffix.trans (List.suffix_cons call history), traced, same⟩

/-- All the slots handed out so far were in use together when the last of them was handed out
for the first time. -/
theorem Traced.tail_mem_usage (traced : Traced capacity history slots) :
    slots.tail ∈ usage capacity history := by
  induction traced with
  | new => exact ⟨[], _, List.suffix_rfl, .new, rfl⟩
  | refused _ _ ih => exact usage_mono _ ih
  | released traced done ih =>
      obtain ⟨-, rfl⟩ := traced.records.wellFormed.release_eq_ok.mp done
      exact usage_mono _ ih
  | given traced found ih =>
      have wellFormed := traced.records.wellFormed
      obtain ⟨left, next, rfl⟩ := wellFormed.allocate_eq_some.mp found
      rcases next?_eq_some.mp next with ⟨_, _, rfl⟩ | ⟨empty, _, rfl, rfl⟩
      · exact usage_mono _ ih
      · refine ⟨_, _, List.suffix_rfl, traced.given found, ?_⟩
        exact congrArg (· + 1) (wellFormed.used_of_empty empty)

/-- As many slots have been handed out as have been in use at once. -/
theorem Traced.isGreatest_tail (traced : Traced capacity history slots) :
    IsGreatest (usage capacity history) slots.tail := by
  refine ⟨traced.tail_mem_usage, ?_⟩
  rintro _ ⟨earlier, before, suffix, traced', rfl⟩
  have grows : before.tail ≤ slots.tail := by
    by_contra! shorter
    have issued := (traced'.records.issued ⟨slots.tail⟩).mpr shorter
    exact Nat.lt_irrefl _ ((traced.records.issued _).mp (suffix.subset issued))
  have counted := traced'.records.wellFormed.counted
  omega

end SlotAllocator

namespace SwapDevice

variable {device : SwapDevice} {limit sector first : Nat} {reads writes : List Nat}

/-- The device, except that it fails on these sectors. -/
def failingOn (device : SwapDevice) (reads writes : List Nat) : SwapDevice :=
  { device with failingReads := reads, failingWrites := writes }

/-- Below a sector, the device fails on these sectors and on no others. -/
structure FailsAlike (device : SwapDevice) (limit : Nat) (reads writes : List Nat) : Prop where
  reading : ∀ sector < limit, reads.contains sector = device.failingReads.contains sector
  writing : ∀ sector < limit, writes.contains sector = device.failingWrites.contains sector

theorem write_failingOn {data : Sector}
    (same : writes.contains sector = device.failingWrites.contains sector) :
    (device.failingOn reads writes).write sector data =
      (device.write sector data).map (·.failingOn reads writes) := by
  unfold SwapDevice.write
  by_cases fails : device.failingWrites.contains sector = true
  · rw [if_pos fails]
    exact if_pos (same.trans fails)
  · rw [if_neg fails]
    refine (if_neg (same ▸ fails)).trans ?_
    change (do return { device.failingOn reads writes with
      disk := ← device.disk.write sector data }) = _
    cases device.disk.write sector data <;> rfl

theorem failingWrites_of_write {data : Sector} {written : SwapDevice}
    (write : device.write sector data = .ok written) :
    written.failingWrites = device.failingWrites := by
  unfold SwapDevice.write at write
  split at write
  · cases write
  · cases done : device.disk.write sector data <;> rw [done] at write <;> cases write
    rfl

theorem writeSectors_failingOn (first : Nat) (page : Page) (indices : List (Fin sectorsPerPage))
    (alike : ∀ index ∈ indices, writes.contains (first + index.val) =
      device.failingWrites.contains (first + index.val)) :
    (device.failingOn reads writes).writeSectors first page indices =
      ((device.writeSectors first page indices).1,
        (device.writeSectors first page indices).2.failingOn reads writes) := by
  induction indices generalizing device with
  | nil => rfl
  | cons index rest ih =>
      unfold writeSectors
      rw [write_failingOn (alike index List.mem_cons_self)]
      cases write : device.write (first + index.val) (page.sector index) with
      | error cause => rfl
      | ok written =>
          refine ih fun other inside => ?_
          rw [failingWrites_of_write write]
          exact alike other (List.mem_cons_of_mem index inside)

theorem readSectors_failingOn (first : Nat) (page : Page) (indices : List (Fin sectorsPerPage))
    (alike : ∀ index ∈ indices, reads.contains (first + index.val) =
      device.failingReads.contains (first + index.val)) :
    (device.failingOn reads writes).readSectors first page indices =
      device.readSectors first page indices := by
  refine readSectors_congr (fun index inside => ?_) page
  unfold SwapDevice.read
  rw [show (device.failingOn reads writes).failingReads.contains (first + index.val) = _ from
    alike index inside]
  rfl

theorem FailsAlike.writePage (alike : device.FailsAlike limit reads writes) (page : Page)
    (below : first + sectorsPerPage ≤ limit) :
    (device.failingOn reads writes).writePage first page =
      ((device.writePage first page).1,
        (device.writePage first page).2.failingOn reads writes) := by
  refine writeSectors_failingOn first page _ fun index _ => alike.writing _ ?_
  have := index.isLt
  omega

theorem FailsAlike.readPage (alike : device.FailsAlike limit reads writes) (page : Page)
    (below : first + sectorsPerPage ≤ limit) :
    (device.failingOn reads writes).readPage first page = device.readPage first page := by
  refine readSectors_failingOn first page _ fun index _ => alike.reading _ ?_
  have := index.isLt
  omega

end SwapDevice

namespace SwapTable

variable {swap : SwapTable} {slot : SwapSlot} {limit : Nat}

/-- No page is read from the device at or beyond a sector: whether the device fails there makes
no difference. -/
def LoadsBelow (swap : SwapTable) (limit : Nat) : Prop :=
  ∀ reads writes slot dest, swap.device.FailsAlike limit reads writes →
    (swap.setFailing reads writes).load slot dest =
      (fun (result, filled, after) => (result, filled, after.setFailing reads writes)) <$>
        swap.load slot dest

/-- No page is written to the device at or beyond a sector: whether the device fails there makes
no difference. -/
def StoresBelow (swap : SwapTable) (limit : Nat) : Prop :=
  ∀ reads writes contents, swap.device.FailsAlike limit reads writes →
    (swap.setFailing reads writes).store contents =
      (fun (result, after) => (result, after.setFailing reads writes)) <$> swap.store contents

theorem firstSector_le {first : Nat} (found : firstSector slot = .ok first) :
    first ≤ slot.value * sectorsPerPage := by
  unfold firstSector Word.mul at found
  split at found
  · cases found
    exact Nat.mod_le _ _
  · cases found

theorem firstSector_spec (slot : SwapSlot) : (liftM (firstSector slot) : Run Nat).Satisfies
    (fun _ => True) fun first => first ≤ slot.value * sectorsPerPage :=
  .lift (.mono (.of_errors fun _ _ => trivial) fun _ => firstSector_le)

theorem loadsBelow
    (inside : ∀ slot, swap.isAllocated slot = true → (slot.value + 1) * sectorsPerPage ≤ limit) :
    swap.LoadsBelow limit := by
  intro reads writes slot dest alike
  unfold load
  rw [map_bind]
  refine (Run.Satisfies.lift .required).bind_congr fun _ allocated => ?_
  rw [map_bind]
  refine (firstSector_spec slot).bind_congr fun first bound => ?_
  have below : first + sectorsPerPage ≤ limit := by
    have := inside slot allocated
    rw [Nat.succ_mul] at this
    omega
  rw [show (swap.setFailing reads writes).device.readPage first dest = _ from
    alike.readPage dest below]
  obtain ⟨result, filled⟩ := swap.device.readPage first dest
  cases result with
  | error cause => rfl
  | ok _ =>
      simp only [map_bind]
      rfl

theorem storesBelow
    (inside : ∀ slot slots, swap.slots.allocate = .ok (some (slot, slots)) →
      (slot.value + 1) * sectorsPerPage ≤ limit) :
    swap.StoresBelow limit := by
  intro reads writes contents alike
  unfold store
  rw [show (swap.setFailing reads writes).slots = swap.slots from rfl, map_bind]
  have answers : (liftM swap.slots.allocate : Run _).Satisfies (fun _ => True) fun answer =>
      swap.slots.allocate = .ok answer := .lift (.of_errors fun _ _ => trivial)
  refine answers.bind_congr fun answer found => ?_
  cases answer with
  | none => rfl
  | some taken =>
      obtain ⟨slot, slots⟩ := taken
      dsimp only
      rw [map_bind]
      refine (firstSector_spec slot).bind_congr fun first bound => ?_
      have below : first + sectorsPerPage ≤ limit := by
        have := inside slot slots found
        rw [Nat.succ_mul] at this
        omega
      rw [show (swap.setFailing reads writes).device.writePage first contents = _ from
        alike.writePage contents below]
      obtain ⟨result, device⟩ := swap.device.writePage first contents
      cases result with
      | error cause =>
          simp only [map_bind]
          rfl
      | ok _ => rfl

end SwapTable

namespace SlotAllocator

variable {capacity : Nat} {history : List Call} {slots : SlotAllocator} {slot : SwapSlot}

theorem LastIdle.unique (last : LastIdle history slot) {other : SwapSlot}
    (again : LastIdle history other) : slot = other := by
  obtain ⟨idle, later, earlier, split, recent⟩ := last
  obtain ⟨idle', later', earlier', split', recent'⟩ := again
  rcases List.append_eq_append_iff.mp (split.symm.trans split') with
    ⟨between, rfl, rest⟩ | ⟨between, rfl, rest⟩
  · cases between with
    | nil =>
        cases rest
        rfl
    | cons call between =>
        cases rest
        exact absurd (by simp) (recent' slot idle)
  · cases between with
    | nil =>
        cases rest
        rfl
    | cons call between =>
        cases rest
        exact absurd (by simp) (recent other idle')

/-- Within a device, the slots handed out so far and the next one are below the peak use. -/
theorem Traced.touches (traced : Traced capacity history slots) (device : SwapDevice) :
    (SwapTable.mk device slots).LoadsBelow (slots.tail * sectorsPerPage) ∧
      (SwapTable.mk device slots).StoresBelow
        (max slots.tail (slots.used + 1) * sectorsPerPage) := by
  refine ⟨SwapTable.loadsBelow fun slot allocated => ?_,
    SwapTable.storesBelow fun slot after found => ?_⟩
  · exact Nat.mul_le_mul_right _ ((traced.records.wellFormed.live slot).mp allocated).1
  · have wellFormed := traced.records.wellFormed
    obtain ⟨left, next, _⟩ := wellFormed.allocate_eq_some.mp found
    refine Nat.mul_le_mul_right _ ?_
    rcases next?_eq_some.mp next with ⟨free, listed, _⟩ | ⟨empty, _, rfl, _⟩
    · have small := wellFormed.below slot (listed ▸ List.mem_cons_self)
      exact Nat.le_trans small (Nat.le_max_left _ _)
    · rw [wellFormed.used_of_empty empty]
      exact Nat.le_max_right _ _

/-- The slot that was released last is handed out next and, if none is idle, the lowest one never
handed out. The slots marked as allocated and their count are those held. However far the
device may extend, nothing is read or written beyond the most slots that were used at once. -/
theorem Traced.policy (traced : Traced capacity history slots) :
    (∀ slot, slots.isAllocated slot = true ↔ Held history slot) ∧
    (∃ held : List SwapSlot, held.Nodup ∧ (∀ slot, slot ∈ held ↔ Held history slot) ∧
      slots.used = held.length) ∧
    (∃ answer, slots.allocate = .ok answer) ∧
    (slots.allocate = .ok none ↔ slots.used = capacity) ∧
    (∀ slot after, slots.allocate = .ok (some (slot, after)) →
      slots.isAllocated slot = false ∧ (LastIdle history slot ∨ (∀ other, ¬Idle history other) ∧
        IsLeast {number | .allocate (some ⟨number⟩) ∉ history} slot.value)) ∧
    (∀ slot, LastIdle history slot → ∃ after, slots.allocate = .ok (some (slot, after))) ∧
    (∀ slot, (∃ after, slots.release slot = .ok after) ↔ Held history slot) ∧
    ∃ peak, IsGreatest (usage capacity history) peak ∧
      (∀ slot, .allocate (some slot) ∈ history ↔ slot.value < peak) ∧
      ∀ device, (SwapTable.mk device slots).LoadsBelow (peak * sectorsPerPage) ∧
        (SwapTable.mk device slots).StoresBelow (max peak (slots.used + 1) * sectorsPerPage) := by
  have records := traced.records
  have wellFormed := records.wellFormed
  refine ⟨records.held, records.exists_held, ⟨_, wellFormed.allocate_eq⟩, records.allocate_eq_none,
    ?given, ?last, ?released, slots.tail, traced.isGreatest_tail, records.issued, traced.touches⟩
  case given =>
    intro slot after found
    obtain ⟨-, -, -, free, -⟩ := wellFormed.allocate found
    obtain ⟨left, next, -⟩ := wellFormed.allocate_eq_some.mp found
    refine ⟨free, ?_⟩
    rcases next?_eq_some.mp next with ⟨_, listed, -⟩ | ⟨empty, -, rfl, -⟩
    · exact .inl (records.lastIdle listed)
    · refine .inr ⟨fun other idle => ?_, ?_, fun number unissued => ?_⟩
      · have listed := (records.idle other).mpr idle
        rw [empty] at listed
        cases listed
      · exact fun issued => Nat.lt_irrefl _ ((records.issued _).mp issued)
      · exact Nat.le_of_not_lt fun below => unissued ((records.issued ⟨number⟩).mpr below)
  case last =>
    intro slot last
    obtain ⟨front, back, listed⟩ := List.append_of_mem ((records.idle slot).mpr last.1)
    obtain ⟨first, free, listed'⟩ : ∃ first free, slots.free = first :: free := by
      cases front with
      | nil => exact ⟨slot, back, listed⟩
      | cons first front => exact ⟨first, _, listed⟩
    obtain rfl := last.unique (records.lastIdle listed')
    exact ⟨_, wellFormed.allocate_eq_some.mpr
      ⟨_, next?_eq_some.mpr (.inl ⟨free, listed', rfl⟩), rfl⟩⟩
  case released =>
    intro slot
    rw [← records.held]
    simp only [wellFormed.release_eq_ok, exists_and_left, exists_eq', and_true]

/-- Of two slots given back, the one given back last is handed out again first. -/
theorem policy_two_released : ∃ history slots after, Traced 3 history slots ∧
    slots.allocate = .ok (some (⟨0⟩, after)) ∧ LastIdle history ⟨0⟩ ∧ 2 ∈ usage 3 history := by
  have traced : Traced 3 [.release ⟨0⟩, .release ⟨1⟩, .allocate (some ⟨1⟩), .allocate (some ⟨0⟩)]
      { live := #[false, false, false], tail := 2, free := [⟨0⟩, ⟨1⟩] } :=
    .released (.released (.given (.given .new rfl) rfl) rfl) rfl
  obtain ⟨-, -, -, -, given, -, -, peak, greatest, issued, -⟩ := traced.policy
  have reached : 1 < peak := (issued ⟨1⟩).mp (by decide)
  have bounded : ¬2 < peak := fun beyond => absurd ((issued ⟨2⟩).mpr beyond) (by decide)
  obtain rfl : peak = 2 := Nat.le_antisymm (Nat.le_of_not_lt bounded) reached
  obtain ⟨-, last | ⟨unidle, -⟩⟩ := given ⟨0⟩ _ rfl
  · exact ⟨_, _, _, traced, rfl, last, greatest.1⟩
  · exact absurd rfl (unidle ⟨0⟩)

end SlotAllocator
end DemandPaging
