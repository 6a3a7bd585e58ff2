import Mathlib.Data.List.Perm.Subperm
import Mathlib.Logic.Function.Basic
import Mathlib.Tactic.Tauto
import DemandPaging.Proofs.Outcome
import DemandPaging.Swap.Table

/-!
What a swap device keeps. A slot reads as its sectors, whether or not it is allocated.
Storing a page changes one slot that was free, even if the device fails halfway; loading
one gives back exactly what was stored.
-/

namespace DemandPaging

private theorem mod_sectorSize_lt (i : Fin pageSize) : i.val % sectorSize < sectorSize :=
  Nat.mod_lt i.val (by decide)

private theorem get_eq_getElem {n : Nat} (bytes : Vector UInt8 n) (i : Fin n) :
    bytes.get i = bytes[i.val] := rfl

namespace Page

private theorem sector_place (index : Nat) {i : Nat} (hi : i < sectorSize) :
    (sectorSize * index + i) / sectorSize = index := by
  unfold sectorSize at *
  omega

theorem sector_setSector (page : Page) (index other : Fin sectorsPerPage) (sector : Sector) :
    (page.setSector index sector).sector other =
      if other = index then sector else page.sector other := by
  refine Vector.ext fun i hi => ?_
  have place := sector_place other.val hi
  by_cases same : other = index
  · subst same
    simp [Page.sector, setSector, get_eq_getElem, place, Nat.mod_eq_of_lt hi]
  · have apart : other.val ≠ index.val := fun h => same (Fin.ext h)
    simp [Page.sector, setSector, get_eq_getElem, place, apart, same]

theorem ext_sector {page other : Page} (same : ∀ index, page.sector index = other.sector index) :
    page = other := by
  refine Vector.ext fun i hi => ?_
  have index : i / sectorSize < sectorsPerPage := Nat.div_lt_of_lt_mul hi
  have byte := congrArg (fun sector => Vector.get sector ⟨i % sectorSize, Nat.mod_lt _ (by decide)⟩)
    (same ⟨i / sectorSize, index⟩)
  simpa [sector, get_eq_getElem, Nat.div_add_mod] using byte

end Page

namespace SwapDevice

variable {device : SwapDevice} {first : Nat}

def sectorAt (device : SwapDevice) (sector : Nat) : Sector :=
  device.disk.written.getD sector Sector.zero

def pageAt (device : SwapDevice) (first : Nat) : Page :=
  Vector.ofFn fun i =>
    (device.sectorAt (first + i.val / sectorSize)).get ⟨i.val % sectorSize, mod_sectorSize_lt i⟩

theorem sector_pageAt (device : SwapDevice) (first : Nat) (index : Fin sectorsPerPage) :
    (device.pageAt first).sector index = device.sectorAt (first + index.val) := by
  ext i hi
  have place := Page.sector_place index.val hi
  simp [Page.sector, pageAt, get_eq_getElem, place, Nat.mod_eq_of_lt hi]

theorem read_eq_ok {sector : Nat} {data : Sector} (read : device.read sector = .ok data) :
    data = device.sectorAt sector := by
  unfold SwapDevice.read Disk.read at read
  split at read
  · cases read
  · split at read
    · exact (Except.ok.inj read).symm
    · cases read

theorem write_eq_ok {sector : Nat} {data : Sector} {written : SwapDevice}
    (write : device.write sector data = .ok written) :
    written.sectorAt = Function.update device.sectorAt sector data := by
  unfold SwapDevice.write Disk.write at write
  split at write
  · cases write
  · split at write
    · cases write
      funext other
      unfold sectorAt
      rw [Function.update_apply, Std.ExtTreeMap.getD_insert]
      by_cases same : other = sector
      · subst same
        simp
      · simp [same, Ne.symm same]
    · cases write

theorem writeSectors_sectorAt (device : SwapDevice) (first : Nat) (page : Page)
    (indices : List (Fin sectorsPerPage)) :
    (∀ sector, (∀ index ∈ indices, sector ≠ first + index.val) →
        (device.writeSectors first page indices).2.sectorAt sector = device.sectorAt sector) ∧
      ((device.writeSectors first page indices).1 = .ok () →
        ∀ index ∈ indices, (device.writeSectors first page indices).2.sectorAt
          (first + index.val) = page.sector index) := by
  induction indices generalizing device with
  | nil => exact ⟨fun _ _ => rfl, fun _ _ inside => nomatch inside⟩
  | cons index rest ih =>
      unfold writeSectors
      cases write : device.write (first + index.val) (page.sector index) with
      | error cause => exact ⟨fun _ _ => rfl, fun done => nomatch done⟩
      | ok written =>
          obtain ⟨apart, done⟩ := ih written
          have changed := write_eq_ok write
          refine ⟨?_, ?_⟩
          · intro sector differs
            refine (apart sector fun other inside =>
              differs other (List.mem_cons_of_mem index inside)).trans ?_
            rw [changed, Function.update_of_ne (differs index List.mem_cons_self)]
          · intro finished other inside
            by_cases again : other ∈ rest
            · exact done finished other again
            · obtain rfl := (List.mem_cons.mp inside).resolve_right again
              refine (apart _ ?_).trans ?_
              · intro index listed same
                exact again (Fin.ext (Nat.add_left_cancel same) ▸ listed)
              · rw [changed, Function.update_self]

theorem readSectors_congr {other : SwapDevice} {indices : List (Fin sectorsPerPage)}
    (same : ∀ index ∈ indices, other.read (first + index.val) = device.read (first + index.val))
    (page : Page) :
    other.readSectors first page indices = device.readSectors first page indices := by
  induction indices generalizing page with
  | nil => rfl
  | cons index rest ih =>
      unfold readSectors
      rw [same index List.mem_cons_self]
      cases device.read (first + index.val) with
      | error cause => rfl
      | ok sector => exact ih (fun other inside => same other (List.mem_cons_of_mem index inside)) _

theorem readSectors_sector (device : SwapDevice) (first : Nat) (page : Page)
    (indices : List (Fin sectorsPerPage))
    (done : (device.readSectors first page indices).1 = .ok ()) :
    ∀ index, (index ∈ indices → (device.readSectors first page indices).2.sector index =
        device.sectorAt (first + index.val)) ∧
      (index ∉ indices →
        (device.readSectors first page indices).2.sector index = page.sector index) := by
  induction indices generalizing page with
  | nil => exact fun index => ⟨fun listed => absurd listed List.not_mem_nil, fun _ => rfl⟩
  | cons index rest ih =>
      unfold readSectors at done ⊢
      cases read : device.read (first + index.val) with
      | error cause =>
          rw [read] at done
          cases done
      | ok data =>
          rw [read] at done
          intro other
          obtain ⟨later, before⟩ := ih (page.setSector index data) done other
          refine ⟨fun listed => ?_, fun outside => ?_⟩
          · by_cases again : other ∈ rest
            · exact later again
            · obtain rfl := (List.mem_cons.mp listed).resolve_right again
              refine (before again).trans ?_
              rw [Page.sector_setSector, if_pos rfl, read_eq_ok read]
          · rw [List.mem_cons, not_or] at outside
            refine (before outside.2).trans ?_
            rw [Page.sector_setSector, if_neg outside.1]

theorem readPage_eq_ok (device : SwapDevice) (first : Nat) (page : Page)
    (done : (device.readPage first page).1 = .ok ()) :
    (device.readPage first page).2 = device.pageAt first := by
  apply Page.ext_sector
  intro index
  rw [sector_pageAt]
  exact (readSectors_sector device first page _ done index).1 (List.mem_finRange index)

theorem writePage_eq_ok (device : SwapDevice) (first : Nat) (page : Page)
    (done : (device.writePage first page).1 = .ok ()) :
    (device.writePage first page).2.pageAt first = page := by
  apply Page.ext_sector
  intro index
  rw [sector_pageAt]
  exact (writeSectors_sectorAt device first page _).2 done index (List.mem_finRange index)

theorem writePage_apart {page : Page} {other : Nat}
    (apart : other + sectorsPerPage ≤ first ∨ first + sectorsPerPage ≤ other) :
    (device.writePage first page).2.pageAt other = device.pageAt other := by
  apply Page.ext_sector
  intro index
  rw [sector_pageAt, sector_pageAt]
  refine (writeSectors_sectorAt device first page _).1 _ ?_
  intro written _ same
  have := index.isLt
  have := written.isLt
  omega

attribute [irreducible] pageAt

end SwapDevice

namespace SlotAllocator

variable {slots after : SlotAllocator} {slot other : SwapSlot}

/-- The slots handed out at least once are those in use and those given back, which are listed
once; the map and the count of those in use are right. -/
structure WellFormed (slots : SlotAllocator) : Prop where
  nodup : slots.free.Nodup
  below : ∀ slot ∈ slots.free, slot.value < slots.tail
  bounded : slots.tail ≤ slots.capacity
  live : ∀ slot, slots.isAllocated slot = true ↔ slot.value < slots.tail ∧ slot ∉ slots.free
  counted : slots.used + slots.free.length = slots.tail

@[simp] theorem capacity_new (capacity : Nat) : (new capacity).capacity = capacity :=
  Array.size_replicate

@[simp] theorem isAllocated_new (capacity : Nat) (slot : SwapSlot) :
    (new capacity).isAllocated slot = false := by
  unfold new isAllocated
  rw [Array.getD_eq_getD_getElem?, Array.getElem?_replicate]
  split <;> rfl

theorem new_wellFormed (capacity : Nat) : (new capacity).WellFormed := by
  refine ⟨List.nodup_nil, fun _ => (absurd · List.not_mem_nil), Nat.zero_le _, fun slot => ?_, rfl⟩
  rw [isAllocated_new]
  exact ⟨fun allocated => absurd allocated Bool.false_ne_true, fun ⟨small, _⟩ => by cases small⟩

/-- A slot is taken from the released ones or, if there are none, from the end. -/
theorem next?_eq_some {left : SlotAllocator} :
    slots.next? = some (slot, left) ↔
      (∃ free, slots.free = slot :: free ∧ { slots with free } = left) ∨
      slots.free = [] ∧ slots.tail < slots.capacity ∧ slot = ⟨slots.tail⟩ ∧
        { slots with tail := slots.tail + 1 } = left := by
  unfold next?
  cases listed : slots.free with
  | cons first free =>
      constructor
      · intro found
        obtain ⟨rfl, same⟩ := Prod.mk.inj (Option.some.inj found)
        exact .inl ⟨free, rfl, same⟩
      · rintro (⟨_, again, rfl⟩ | ⟨empty, -⟩)
        · cases again
          rfl
        · cases empty
  | nil =>
      dsimp only
      by_cases room : slots.tail < slots.capacity
      · rw [if_pos room]
        constructor
        · intro found
          obtain ⟨rfl, same⟩ := Prod.mk.inj (Option.some.inj found)
          exact .inr ⟨rfl, room, rfl, listed ▸ same⟩
        · rintro (⟨_, again, _⟩ | ⟨-, -, rfl, rfl⟩)
          · cases again
          · rfl
      · rw [if_neg room]
        constructor
        · intro found
          cases found
        · rintro (⟨_, again, _⟩ | ⟨-, room', -⟩)
          · cases again
          · exact absurd room' room

theorem getD_set (inside : slot.value < slots.capacity) (mark : Bool) :
    (slots.live.setIfInBounds slot.value mark).getD other.value false =
      if other = slot then mark else slots.isAllocated other := by
  unfold isAllocated
  rw [Array.getD_eq_getD_getElem?, Array.getElem?_setIfInBounds, Array.getD_eq_getD_getElem?]
  by_cases same : other = slot
  · subst same
    rw [if_pos rfl, if_pos rfl, if_pos (show other.value < slots.live.size from inside)]
    rfl
  · rw [if_neg same, if_neg fun h => same (Number.ext h).symm]

/-- The allocator once a slot that was free is marked as in use. -/
def occupied (slots : SlotAllocator) (slot : SwapSlot) : SlotAllocator :=
  { slots with live := slots.live.setIfInBounds slot.value true, used := slots.used + 1 }

theorem live_of_idle (inside : slot.value < slots.capacity)
    (idle : slots.isAllocated slot = false) : slots.live[slot.value]? = some false := by
  unfold isAllocated at idle
  rw [Array.getD_eq_getD_getElem?, Array.getElem?_eq_getElem inside, Option.getD_some] at idle
  rw [Array.getElem?_eq_getElem inside, idle]

theorem occupy_eq (inside : slot.value < slots.capacity) (idle : slots.isAllocated slot = false) :
    slots.occupy slot = .ok (slots.occupied slot) := by
  unfold occupy
  rw [live_of_idle inside idle]
  rfl

/-- The allocator once a slot that was in use is given back. -/
def vacated (slots : SlotAllocator) (slot : SwapSlot) : SlotAllocator :=
  { slots with
    live := slots.live.setIfInBounds slot.value false
    used := slots.used - 1
    free := slot :: slots.free }

theorem vacated_occupied (inside : slot.value < slots.capacity)
    (idle : slots.isAllocated slot = false) :
    (slots.occupied slot).vacated slot = { slots with free := slot :: slots.free } := by
  have entry := live_of_idle inside idle
  have same : (slots.live.setIfInBounds slot.value true).setIfInBounds slot.value false =
      slots.live := by
    refine Array.ext_getElem? fun i => ?_
    rw [Array.setIfInBounds_setIfInBounds, Array.getElem?_setIfInBounds]
    split
    · rename_i here
      rw [if_pos (show slot.value < slots.live.size from inside), ← here, entry]
    · rfl
  unfold occupied vacated
  simp only [same, Nat.add_sub_cancel]

namespace WellFormed

theorem lt_capacity (wellFormed : slots.WellFormed) (allocated : slots.isAllocated slot = true) :
    slot.value < slots.capacity :=
  Nat.lt_of_lt_of_le ((wellFormed.live slot).mp allocated).1 wellFormed.bounded

theorem used_of_empty (wellFormed : slots.WellFormed) (empty : slots.free = []) :
    slots.used = slots.tail := by
  have counted := wellFormed.counted
  rwa [empty, List.length_nil, Nat.add_zero] at counted

theorem tail_idle (wellFormed : slots.WellFormed) : slots.isAllocated ⟨slots.tail⟩ = false := by
  rw [← Bool.not_eq_true, wellFormed.live]
  exact fun ⟨small, _⟩ => Nat.lt_irrefl _ small

theorem next_idle (wellFormed : slots.WellFormed) {left : SlotAllocator}
    (next : slots.next? = some (slot, left)) :
    slot.value < slots.capacity ∧ slots.isAllocated slot = false ∧ left.live = slots.live := by
  rcases next?_eq_some.mp next with ⟨free, listed, rfl⟩ | ⟨_, room, rfl, rfl⟩
  · have member : slot ∈ slots.free := listed ▸ List.mem_cons_self
    refine ⟨Nat.lt_of_lt_of_le (wellFormed.below slot member) wellFormed.bounded, ?_, rfl⟩
    rw [← Bool.not_eq_true, wellFormed.live]
    exact fun ⟨_, unlisted⟩ => unlisted member
  · exact ⟨room, wellFormed.tail_idle, rfl⟩

/-- Neither the check on the slot that comes next nor the one on its number ever fails. -/
theorem allocate_eq (wellFormed : slots.WellFormed) :
    slots.allocate = .ok (slots.next?.map fun (slot, left) => (slot, left.occupied slot)) := by
  unfold SlotAllocator.allocate
  cases next : slots.next? with
  | none => rfl
  | some taken =>
      obtain ⟨slot, left⟩ := taken
      obtain ⟨inside, idle, same⟩ := wellFormed.next_idle next
      dsimp only
      rw [occupy_eq (by unfold capacity; rw [same]; exact inside)
        (by unfold isAllocated; rw [same]; exact idle)]
      rfl

theorem allocate_eq_some (wellFormed : slots.WellFormed) :
    slots.allocate = .ok (some (slot, after)) ↔
      ∃ left, slots.next? = some (slot, left) ∧ left.occupied slot = after := by
  rw [wellFormed.allocate_eq, Except.ok.injEq, Option.map_eq_some_iff]
  constructor
  · rintro ⟨⟨_, left⟩, next, same⟩
    cases same
    exact ⟨left, next, rfl⟩
  · rintro ⟨left, next, rfl⟩
    exact ⟨(slot, left), next, rfl⟩

theorem allocate_eq_none (wellFormed : slots.WellFormed) :
    slots.allocate = .ok none ↔ slots.used = slots.capacity := by
  have bounded := wellFormed.bounded
  have counted := wellFormed.counted
  rw [wellFormed.allocate_eq, Except.ok.injEq, Option.map_eq_none_iff]
  unfold next?
  cases listed : slots.free with
  | cons first free =>
      rw [listed, List.length_cons] at counted
      simp only [reduceCtorEq, false_iff]
      omega
  | nil =>
      rw [listed, List.length_nil] at counted
      simp only [ite_eq_right_iff, reduceCtorEq, imp_false]
      omega

theorem allocate (wellFormed : slots.WellFormed)
    (found : slots.allocate = .ok (some (slot, after))) :
    after.WellFormed ∧ after.capacity = slots.capacity ∧ slot.value < slots.capacity ∧
      slots.isAllocated slot = false ∧
        ∀ other, after.isAllocated other = true ↔ other = slot ∨ slots.isAllocated other = true := by
  obtain ⟨left, next, rfl⟩ := wellFormed.allocate_eq_some.mp found
  obtain ⟨inside, idle, same⟩ := wellFormed.next_idle next
  obtain ⟨nodup, below, bounded, live, counted⟩ := wellFormed
  have marks : ∀ other, (left.occupied slot).isAllocated other = true ↔
      other = slot ∨ slots.isAllocated other = true := by
    intro other
    change (left.live.setIfInBounds slot.value true).getD other.value false = true ↔ _
    rw [same, getD_set inside]
    split <;> simp [*]
  have size : (left.occupied slot).capacity = slots.capacity := by
    change (left.live.setIfInBounds slot.value true).size = _
    rw [Array.size_setIfInBounds, same]
    rfl
  refine ⟨?_, size, inside, idle, marks⟩
  rcases next?_eq_some.mp next with ⟨free, listed, rfl⟩ | ⟨empty, room, rfl, rfl⟩
  · rw [listed] at nodup below live counted
    obtain ⟨unlisted, restNodup⟩ := List.nodup_cons.mp nodup
    refine ⟨restNodup, fun slot inside => below slot (List.mem_cons_of_mem _ inside),
      size ▸ bounded, fun other => ?_, ?_⟩
    · have small := below slot List.mem_cons_self
      rw [marks, live, List.mem_cons]
      change _ ↔ other.value < slots.tail ∧ other ∉ free
      by_cases same : other = slot
      · subst same
        simp [unlisted, small]
      · simp [same]
    · change slots.used + 1 + free.length = slots.tail
      rw [List.length_cons] at counted
      omega
  · refine ⟨nodup, fun slot listed => Nat.lt_succ_of_lt (below slot listed), size ▸ room,
      fun other => ?_, ?_⟩
    · rw [marks, live, Number.ext_iff]
      change _ ↔ other.value < slots.tail + 1 ∧ other ∉ slots.free
      rw [empty]
      simp only [List.not_mem_nil, not_false_eq_true, and_true]
      omega
    · change slots.used + 1 + slots.free.length = slots.tail + 1
      omega

theorem allocate_satisfies {tolerated : Violation → Prop} (wellFormed : slots.WellFormed) :
    slots.allocate.Satisfies tolerated fun answer => slots.allocate = .ok answer := by
  rw [wellFormed.allocate_eq]
  exact rfl

theorem used_pos (wellFormed : slots.WellFormed) (allocated : slots.isAllocated slot = true) :
    1 ≤ slots.used := by
  obtain ⟨small, unlisted⟩ := (wellFormed.live slot).mp allocated
  have distinct : (slot :: slots.free).Nodup := List.nodup_cons.mpr ⟨unlisted, wellFormed.nodup⟩
  have listed : (slot :: slots.free).Subperm
      ((List.range slots.tail).map fun i => (⟨i⟩ : SwapSlot)) := by
    refine distinct.subperm fun other inside => ?_
    refine List.mem_map.mpr ⟨other.value, List.mem_range.mpr ?_, rfl⟩
    rcases List.mem_cons.mp inside with rfl | free
    · exact small
    · exact wellFormed.below other free
  have fewer := listed.length_le
  have counted := wellFormed.counted
  rw [List.length_cons, List.length_map, List.length_range] at fewer
  omega

theorem release_eq (wellFormed : slots.WellFormed) (allocated : slots.isAllocated slot = true) :
    slots.release slot = .ok (slots.vacated slot) := by
  unfold release require
  rw [if_pos allocated, Checked.ok_bind, Word.sub_eq (wellFormed.used_pos allocated)]
  rfl

theorem release_satisfies {tolerated : Violation → Prop}
    (wellFormed : slots.WellFormed) (allocated : slots.isAllocated slot = true) :
    (slots.release slot).Satisfies tolerated fun released =>
      released.WellFormed ∧ released.capacity = slots.capacity ∧
        ∀ other, released.isAllocated other = true ↔
          other ≠ slot ∧ slots.isAllocated other = true := by
  have inside := wellFormed.lt_capacity allocated
  have positive := wellFormed.used_pos allocated
  obtain ⟨small, unlisted⟩ := (wellFormed.live slot).mp allocated
  have marks : ∀ other, (slots.vacated slot).isAllocated other = true ↔
      other ≠ slot ∧ slots.isAllocated other = true := by
    intro other
    change (slots.live.setIfInBounds slot.value false).getD other.value false = true ↔ _
    rw [getD_set inside]
    split <;> simp [*]
  have size : (slots.vacated slot).capacity = slots.capacity := Array.size_setIfInBounds
  refine .of_eq (wellFormed.release_eq allocated) ⟨?_, size, marks⟩
  obtain ⟨nodup, below, bounded, live, counted⟩ := wellFormed
  refine ⟨List.nodup_cons.mpr ⟨unlisted, nodup⟩, fun other listed => ?_, size ▸ bounded,
    fun other => ?_, ?_⟩
  · rcases List.mem_cons.mp listed with rfl | listed
    · exact small
    · exact below other listed
  · rw [marks, live]
    change _ ↔ other.value < slots.tail ∧ other ∉ slot :: slots.free
    rw [List.mem_cons]
    tauto
  · change slots.used - 1 + (slots.free.length + 1) = slots.tail
    omega

/-- The slot that was given back last is handed out next. -/
theorem release_reissues {tolerated : Violation → Prop}
    (wellFormed : slots.WellFormed) (allocated : slots.isAllocated slot = true) :
    (slots.release slot).Satisfies tolerated fun released =>
      ∃ again, released.allocate = .ok (some (slot, again)) := by
  have released := wellFormed.release_eq allocated
  have wellFormed' : (slots.release slot).Satisfies tolerated _ :=
    wellFormed.release_satisfies allocated
  rw [released] at wellFormed'
  have next : (slots.vacated slot).next? = some (slot, { slots.vacated slot with free := slots.free }) :=
    rfl
  exact .of_eq released ⟨_, wellFormed'.1.allocate_eq_some.mpr ⟨_, next, rfl⟩⟩

end WellFormed

end SlotAllocator

namespace SwapTable

variable {swap : SwapTable} {slot : SwapSlot} {tolerated : Violation → Prop}

/-- Every slot has a sector number of its own. -/
structure WellFormed (swap : SwapTable) : Prop where
  slots : swap.slots.WellFormed
  sectors : swap.slots.capacity * sectorsPerPage ≤ 0x100000000

theorem new_wellFormed {device : SwapDevice} (numbered : device.sectorCount < 0x100000000) :
    (SwapTable.mk device (.new (device.sectorCount / sectorsPerPage))).WellFormed := by
  refine ⟨SlotAllocator.new_wellFormed _, ?_⟩
  rw [SlotAllocator.capacity_new]
  exact Nat.le_of_lt (Nat.lt_of_le_of_lt (Nat.div_mul_le_self _ _) numbered)

def page (swap : SwapTable) (slot : SwapSlot) : Page :=
  swap.device.pageAt (slot.value * sectorsPerPage)

theorem WellFormed.firstSector_eq (wellFormed : swap.WellFormed)
    (inside : slot.value < swap.slots.capacity) :
    firstSector slot = .ok (slot.value * sectorsPerPage) := by
  have bound := wellFormed.sectors
  have small : slot.value * sectorsPerPage < 0x100000000 := by
    unfold sectorsPerPage pageSize sectorSize at *
    omega
  unfold firstSector Word.mul
  rw [if_pos (Nat.lt_trans small (by decide)), Checked.ok_bind, Nat.mod_eq_of_lt small]
  rfl

theorem WellFormed.lt_capacity (wellFormed : swap.WellFormed)
    (allocated : swap.isAllocated slot = true) : slot.value < swap.slots.capacity :=
  wellFormed.slots.lt_capacity allocated

/-- Writing a page to a slot, or failing to, changes no other slot. -/
theorem page_writePage (device : SwapDevice) (contents : Page) (slots : SlotAllocator)
    (slot : SwapSlot) :
    (SwapTable.mk (device.writePage (slot.value * sectorsPerPage) contents).2 slots).page =
      Function.update (SwapTable.mk device slots).page slot
        ((device.writePage (slot.value * sectorsPerPage) contents).2.pageAt
          (slot.value * sectorsPerPage)) := by
  funext other
  rw [Function.update_apply]
  by_cases same : other = slot
  · subst same
    rw [if_pos rfl]
    rfl
  · rw [if_neg same]
    have apart : other.value ≠ slot.value := fun h => same (Number.ext h)
    refine SwapDevice.writePage_apart ?_
    unfold sectorsPerPage pageSize sectorSize
    omega

/-- A page that is stored takes a slot that was free. Otherwise at most the contents of a
free slot change. -/
theorem store_satisfies (wellFormed : swap.WellFormed) (contents : Page) :
    (swap.store contents).Satisfies tolerated fun (result, stored) =>
      stored.WellFormed ∧
        match result with
        | .ok slot => swap.isAllocated slot = false ∧
            (∀ other, stored.isAllocated other = true ↔
              other = slot ∨ swap.isAllocated other = true) ∧
            stored.page = Function.update swap.page slot contents
        | .error _ => (∀ other, stored.isAllocated other = true ↔ swap.isAllocated other = true) ∧
            ∃ scratch page, swap.isAllocated scratch = false ∧
              stored.page = Function.update swap.page scratch page := by
  unfold store
  refine .bind (.lift wellFormed.slots.allocate_satisfies) fun answer found => ?_
  cases answer with
  | none =>
      exact .pure ⟨wellFormed, fun _ => Iff.rfl, ⟨swap.slots.tail⟩, _, wellFormed.slots.tail_idle,
        (Function.update_eq_self _ _).symm⟩
  | some allocation =>
      obtain ⟨slot, taken⟩ := allocation
      obtain ⟨taken', capacity, inside, free, allocated⟩ := wellFormed.slots.allocate found
      have sectors := wellFormed.sectors
      refine .bind (.lift (.of_eq (wellFormed.firstSector_eq inside) rfl)) ?_
      rintro _ rfl
      have done := SwapDevice.writePage_eq_ok swap.device (slot.value * sectorsPerPage) contents
      have changed := fun slots => page_writePage swap.device contents slots slot
      generalize swap.device.writePage (slot.value * sectorsPerPage) contents = write
        at done changed ⊢
      obtain ⟨result, device⟩ := write
      cases result with
      | error cause =>
          -- some of the sectors may be written, all of them of the slot that is given back
          refine .bind (.lift (taken'.release_satisfies ((allocated slot).mpr (.inl rfl)))) ?_
          rintro released ⟨released', capacity', remaining⟩
          refine .pure ⟨⟨released', ?_⟩, ?_, slot, _, free, changed released⟩
          · rw [capacity', capacity]
            exact sectors
          · intro other
            refine (remaining other).trans ?_
            rw [allocated]
            refine ⟨fun ⟨differs, h⟩ => h.resolve_left differs, fun h => ⟨?_, .inr h⟩⟩
            rintro rfl
            exact absurd h (by rw [isAllocated, free]; decide)
      | ok _ =>
          refine .bind .log fun _ _ => ?_
          refine .pure ⟨⟨taken', ?_⟩, free, allocated, ?_⟩
          · rw [capacity]
            exact sectors
          · refine (changed taken).trans ?_
            rw [done rfl]
            rfl

/-- Loading a slot that does not fail gives what the slot holds and frees it; a failure
keeps the slot. -/
theorem load_satisfies (wellFormed : swap.WellFormed) (allocated : swap.isAllocated slot = true)
    (dest : Page) :
    (swap.load slot dest).Satisfies tolerated fun (result, filled, loaded) =>
      loaded.WellFormed ∧ loaded.page = swap.page ∧
        match result with
        | .ok () => filled = swap.page slot ∧
            ∀ other, loaded.isAllocated other = true ↔
              other ≠ slot ∧ swap.isAllocated other = true
        | .error _ => ∀ other, loaded.isAllocated other = true ↔ swap.isAllocated other = true := by
  unfold load
  refine .bind (.lift (.require allocated)) fun _ _ => ?_
  refine .bind (.lift (.of_eq (wellFormed.firstSector_eq (wellFormed.lt_capacity allocated)) rfl)) ?_
  rintro _ rfl
  have done := SwapDevice.readPage_eq_ok swap.device (slot.value * sectorsPerPage) dest
  generalize swap.device.readPage (slot.value * sectorsPerPage) dest = read at done ⊢
  obtain ⟨result, filled⟩ := read
  cases result with
  | error cause => exact .pure ⟨wellFormed, rfl, fun _ => Iff.rfl⟩
  | ok _ =>
      refine .bind (.lift (wellFormed.slots.release_satisfies allocated)) ?_
      rintro released ⟨released', capacity, remaining⟩
      refine .bind .log fun _ _ => ?_
      refine .pure ⟨⟨released', ?_⟩, rfl, done rfl, remaining⟩
      rw [capacity]
      exact wellFormed.sectors

theorem release_satisfies (wellFormed : swap.WellFormed)
    (allocated : swap.isAllocated slot = true) :
    (swap.release slot).Satisfies tolerated fun released =>
      released.WellFormed ∧ released.page = swap.page ∧
        ∀ other, released.isAllocated other = true ↔
          other ≠ slot ∧ swap.isAllocated other = true := by
  unfold release
  refine .bind (wellFormed.slots.release_satisfies allocated) ?_
  rintro released ⟨released', capacity, remaining⟩
  refine .pure ⟨⟨released', ?_⟩, rfl, remaining⟩
  rw [capacity]
  exact wellFormed.sectors

theorem setFailing_page (swap : SwapTable) (reads writes : List Nat) :
    (swap.setFailing reads writes).page = swap.page := by
  funext slot
  unfold page setFailing SwapDevice.pageAt
  rfl

end SwapTable
end DemandPaging
