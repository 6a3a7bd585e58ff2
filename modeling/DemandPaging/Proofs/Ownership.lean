import DemandPaging.Proofs.Reachable

/-!
Who has which frame and which slot. In every state the frame table and the slot allocator
agree with the entries of the address spaces: a frame or slot in use belongs to exactly one
page, and none is lost.
-/

namespace DemandPaging

variable {arch : Architecture}

namespace PageEntry

def slot? (entry : PageEntry) : Option SwapSlot :=
  match entry.backing with
  | .swap slot => some slot
  | _ => none

theorem slot?_eq_some {entry : PageEntry} {slot : SwapSlot} :
    entry.slot? = some slot ↔ entry.backing = .swap slot := by
  unfold slot?
  cases entry.backing <;> simp

end PageEntry

namespace Vm

variable {vm : Vm arch}

/-- The contents of a process's page live in this backing. -/
def Lives (vm : Vm arch) (process : ProcessId) (page : PageNumber) (backing : Backing) : Prop :=
  ∃ space entry, vm.spaces[process]? = some space ∧ space.entries[page]? = some entry ∧
    entry.backing = backing

theorem lives_iff {process : ProcessId} {page : PageNumber} {backing : Backing} :
    vm.Lives process page backing ↔ vm.layout.Backs (process, page) backing := by
  constructor
  · rintro ⟨space, entry, found, listed, source⟩
    exact ⟨entry, (Tenants.entryAt_of_space found page).trans listed, source⟩
  · rintro ⟨entry, present, source⟩
    obtain ⟨space, found, listed⟩ := Tenants.space_of_entryAt present
    exact ⟨space, entry, found, listed, source⟩

/-- A frame or slot holds the contents of one page of one process at most. -/
theorem Reachable.lives_unique (reachable : Reachable vm) {process other : ProcessId}
    {page number : PageNumber} (backing : Backing) (exclusive : backing.IsExclusive)
    (lives : vm.Lives process page backing) (again : vm.Lives other number backing) :
    process = other ∧ page = number := by
  have sound : vm.layout.Sound fun _ => True := reachable.consistent.tenants.sound _
  exact Prod.ext_iff.mp
    (sound.unique backing exclusive (lives_iff.mp again) (lives_iff.mp lives))

/-- The frame table says exactly which page each frame belongs to. Every frame in use is the
frame of one resident page of a process that lives, and is in the clock queue; all others are
free. -/
theorem Reachable.frames_exclusive (reachable : Reachable vm) :
    (∀ frame process page, vm.frames.ownerOf frame = some (process, page) ↔
      vm.Lives process page (.frame frame)) ∧
    (∀ frame process page other number, vm.Lives process page (.frame frame) →
      vm.Lives other number (.frame frame) → process = other ∧ page = number) ∧
    (∀ frame process page, vm.Lives process page (.frame frame) →
      frame ∉ vm.frames.pool.free) ∧
    (∀ frame, frame ∈ vm.frames →
      ∃ process page, vm.frames.ownerOf frame = some (process, page) ∧ process ∈ vm.spaces) ∧
    (∃ queue, vm.frames.IsRing queue ∧ ∀ frame, frame ∈ queue ↔ frame ∈ vm.frames) ∧
    vm.frames.queued = vm.frames.resident ∧
    vm.frames.resident + vm.frames.free = vm.frames.total := by
  obtain ⟨⟨ring, wellFormed, settled⟩, tenants⟩ := reachable.consistent
  have owners : ∀ frame process page, vm.frames.ownerOf frame = some (process, page) ↔
      vm.Lives process page (.frame frame) := by
    intro frame process page
    exact (tenants.owners frame (process, page)).trans lives_iff.symm
  have queue : ∀ frame, frame ∈ ring ↔ frame ∈ vm.frames :=
    fun frame => ⟨wellFormed.isRing.mem, settled frame⟩
  refine ⟨owners, ?_, ?_, ?_, ⟨ring, wellFormed.isRing, queue⟩, ?_, wellFormed.counted⟩
  · intro frame process page other number lives again
    exact reachable.lives_unique (.frame frame) trivial lives again
  · intro frame process page lives free
    exact wellFormed.untracked frame free
      (FrameTable.mem_of_ownerOf ((owners frame process page).mpr lives))
  · intro frame tracked
    obtain ⟨⟨process, page⟩, owned⟩ :=
      Option.isSome_iff_exists.mp (FrameTable.ownerOf_isSome.mpr tracked)
    obtain ⟨space, _, found, _⟩ := (owners frame process page).mp owned
    refine ⟨process, page, owned, ?_⟩
    rw [Std.ExtTreeMap.mem_iff_isSome_getElem?, found]
    rfl
  · exact wellFormed.isRing.counted.trans (wellFormed.length_eq_resident settled)

theorem frames_exclusive_of_eviction : ∃ vm : Vm .scaleModel, Reachable vm ∧
    vm.frames.ownerOf ⟨16⟩ = some (⟨1⟩, ⟨2⟩) ∧ vm.Lives ⟨1⟩ ⟨2⟩ (.frame ⟨16⟩) := by
  have evicted : (oneFrame.run? [.createProcess ⟨1⟩, .installPage ⟨1⟩ ⟨0x1000⟩ true,
      .installPage ⟨1⟩ ⟨0x2000⟩ true]).any
        (fun vm => vm.frames.ownerOf ⟨16⟩ = some (⟨1⟩, ⟨2⟩)) = true := by
    decide +kernel
  obtain ⟨vm, ran, owned⟩ := (Option.any_eq_true _ _).mp evicted
  have reachable := (Reachable.boot oneFrame_booted).run ran
  have owned' := of_decide_eq_true owned
  exact ⟨vm, reachable, owned', (reachable.frames_exclusive.1 ⟨16⟩ ⟨1⟩ ⟨2⟩).mp owned'⟩

/-- The slots of all pages in swap, one for each entry of each process. -/
def swapped (vm : Vm arch) : List SwapSlot :=
  vm.spaces.toList.flatMap fun (_, space) =>
    space.entries.toList.filterMap fun (_, entry) => entry.slot?

theorem mem_swapped {slot : SwapSlot} :
    slot ∈ vm.swapped ↔ ∃ process page, vm.Lives process page (.swap slot) := by
  unfold swapped Lives
  simp only [List.mem_flatMap, List.mem_filterMap, PageEntry.slot?_eq_some, Prod.exists,
    Std.ExtTreeMap.mem_toList_iff_getElem?_eq_some]
  constructor
  · rintro ⟨process, space, found, page, entry, listed, source⟩
    exact ⟨process, page, space, entry, found, listed, source⟩
  · rintro ⟨process, page, space, entry, found, listed, source⟩
    exact ⟨process, space, found, page, entry, listed, source⟩

theorem Reachable.nodup_swapped (reachable : Reachable vm) : vm.swapped.Nodup := by
  have lives : ∀ process space page entry slot, (process, space) ∈ vm.spaces.toList →
      (page, entry) ∈ space.entries.toList → entry.slot? = some slot →
        vm.Lives process page (.swap slot) := by
    intro process space page entry slot found listed source
    rw [Std.ExtTreeMap.mem_toList_iff_getElem?_eq_some] at found listed
    exact ⟨space, entry, found, listed, PageEntry.slot?_eq_some.mp source⟩
  unfold swapped List.Nodup
  rw [List.pairwise_flatMap]
  constructor
  · rintro ⟨process, space⟩ found
    rw [List.pairwise_filterMap]
    refine (NumberMap.toList_distinct space.entries).imp_of_mem ?_
    rintro ⟨page, entry⟩ ⟨number, other⟩ listed later differs slot source again source' same
    subst same
    exact differs (reachable.lives_unique (.swap slot) trivial (lives _ _ _ _ _ found listed source)
      (lives _ _ _ _ _ found later source')).2
  · refine (NumberMap.toList_distinct vm.spaces).imp_of_mem ?_
    rintro ⟨process, space⟩ ⟨other, space'⟩ found later differs slot inside again inside' same
    subst same
    obtain ⟨⟨page, entry⟩, listed, source⟩ := List.mem_filterMap.mp inside
    obtain ⟨⟨number, entry'⟩, listed', source'⟩ := List.mem_filterMap.mp inside'
    exact differs (reachable.lives_unique (.swap slot) trivial (lives _ _ _ _ _ found listed source)
      (lives _ _ _ _ _ later listed' source')).1

end Vm

namespace SlotAllocator

variable {slots : SlotAllocator}

/-- As many slots are used as are reported to be allocated. -/
theorem WellFormed.used_eq (wellFormed : slots.WellFormed) {allocated : List SwapSlot}
    (nodup : allocated.Nodup)
    (reported : ∀ slot, slot ∈ allocated ↔ slots.isAllocated slot = true) :
    slots.used = allocated.length := by
  have known : (allocated ++ slots.free).Perm
      ((List.range slots.tail).map fun i => (⟨i⟩ : SwapSlot)) := by
    refine (List.perm_ext_iff_of_nodup ?_ ?_).mpr fun slot => ?_
    · refine List.nodup_append'.mpr ⟨nodup, wellFormed.nodup, ?_⟩
      intro slot used free
      exact ((wellFormed.live slot).mp ((reported slot).mp used)).2 free
    · exact List.Nodup.map_on (fun i _ j _ same => congrArg Number.value same) List.nodup_range
    · rw [List.mem_append, reported, wellFormed.live, List.mem_map]
      constructor
      · rintro (⟨small, _⟩ | free)
        · exact ⟨slot.value, List.mem_range.mpr small, rfl⟩
        · exact ⟨slot.value, List.mem_range.mpr (wellFormed.below slot free), rfl⟩
      · rintro ⟨i, small, rfl⟩
        rw [List.mem_range] at small
        exact (em _).symm.imp_left fun outside => ⟨small, outside⟩
  have lengths := known.length_eq
  have counted := wellFormed.counted
  rw [List.length_append, List.length_map, List.length_range] at lengths
  omega

end SlotAllocator

namespace Violation

/-- A slot is released or loaded that is not allocated. -/
def OfFreeSlot : Violation → Prop
  | .releaseOfFreeSlot _ => True
  | .loadOfFreeSlot _ => True
  | _ => False

theorem frameStart_apart {frame : FrameNumber} {violation : Violation}
    (failed : frame.frameStart arch = .error violation) : ¬violation.OfFreeSlot := by
  unfold Number.frameStart Word.mul Address.new at failed
  split at failed
  · rw [Checked.ok_bind] at failed
    split at failed <;> cases failed
    exact id
  · cases failed
    exact id

theorem fileRange_apart {mapping : Mapping} {page : PageNumber} {violation : Violation}
    (failed : mapping.fileRange page = .error violation) : ¬violation.OfFreeSlot := by
  unfold Mapping.fileRange require Word.add at failed
  split at failed
  · rw [Checked.ok_bind] at failed
    dsimp only at failed
    split at failed <;> cases failed
    exact id
  · cases failed
    exact id

theorem reach_apart {pool : FramePool arch} {frame : FrameNumber} {violation : Violation}
    (failed : pool.reach frame = .error violation) : ¬violation.OfFreeSlot := by
  unfold FramePool.reach require at failed
  split at failed
  · rw [Checked.ok_bind] at failed
    split at failed
    · cases failed
    · cases start : frame.frameStart arch with
      | error broken =>
          rw [start] at failed
          cases failed
          exact frameStart_apart start
      | ok address =>
          rw [start] at failed
          unfold Word.add at failed
          rw [Checked.ok_bind] at failed
          split at failed <;> cases failed
          exact id
  · cases failed
    exact id

end Violation

namespace Vm

variable {vm : Vm arch}

theorem tolerable_apart (vm : Vm arch) (operation : Operation) :
    operation.Tolerable (fun violation => ¬violation.OfFreeSlot) vm := by
  cases operation with
  | handleFault | resolveFault => exact fun _ _ _ _ => id
  | mapSegment | createMapping => exact fun _ _ _ _ _ => Violation.fileRange_apart
  | _ => trivial

theorem Reachable.consistent_apart (reachable : Reachable vm) :
    vm.Consistent fun violation => ¬violation.OfFreeSlot := by
  refine reachable.consistent_of ?_ tolerable_apart
  exact fun pool frame _ => ⟨fun _ => Violation.reach_apart, fun _ => Violation.frameStart_apart⟩

theorem Reachable.allocated_iff (reachable : Reachable vm) (slot : SwapSlot) :
    vm.swap.isAllocated slot = true ↔ ∃ process page, vm.Lives process page (.swap slot) := by
  refine (reachable.consistent.tenants.slots slot).trans ?_
  simp only [lives_iff, Prod.exists]
  rfl

theorem Reachable.used_eq (reachable : Reachable vm) : vm.swap.used = vm.swapped.length :=
  reachable.consistent.tenants.swap.slots.used_eq reachable.nodup_swapped fun slot =>
    mem_swapped.trans (reachable.allocated_iff slot).symm

/-- The slots reported as allocated are those of the pages in swap, each of one page, and none
is lost. No operation releases or loads a slot that is not allocated. -/
theorem Reachable.slots_exclusive (reachable : Reachable vm) :
    (∀ slot, vm.swap.isAllocated slot = true ↔
      ∃ process page, vm.Lives process page (.swap slot)) ∧
    (∀ slot process page other number, vm.Lives process page (.swap slot) →
      vm.Lives other number (.swap slot) → process = other ∧ page = number) ∧
    vm.swap.used = vm.swapped.length ∧
    ∀ operation slot, (vm.step operation).outcome ≠ .error (.releaseOfFreeSlot slot) ∧
      (vm.step operation).outcome ≠ .error (.loadOfFreeSlot slot) := by
  have consistent := reachable.consistent_apart
  refine ⟨reachable.allocated_iff, ?_, reachable.used_eq, ?_⟩
  · intro slot process page other number lives again
    exact reachable.lives_unique (.swap slot) trivial lives again
  · intro operation slot
    have satisfies := step_satisfies consistent (tolerable_apart vm operation)
    exact ⟨fun broken => satisfies.of_violation broken trivial,
      fun broken => satisfies.of_violation broken trivial⟩

theorem slots_exclusive_of_eviction : ∃ vm : Vm .scaleModel, Reachable vm ∧
    vm.swap.isAllocated ⟨0⟩ = true ∧ ∃ process page, vm.Lives process page (.swap ⟨0⟩) := by
  have evicted : (oneFrame.run? [.createProcess ⟨1⟩, .installPage ⟨1⟩ ⟨0x1000⟩ true,
      .installPage ⟨1⟩ ⟨0x2000⟩ true]).any (fun vm => vm.swap.isAllocated ⟨0⟩) = true := by
    decide +kernel
  obtain ⟨vm, ran, allocated⟩ := (Option.any_eq_true _ _).mp evicted
  have reachable := (Reachable.boot oneFrame_booted).run ran
  exact ⟨vm, reachable, allocated, (reachable.slots_exclusive.1 ⟨0⟩).mp allocated⟩

end Vm
end DemandPaging
