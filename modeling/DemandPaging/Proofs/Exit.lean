import DemandPaging.Proofs.Mirror
import DemandPaging.Proofs.Ownership
import DemandPaging.Proofs.Readable

/-!
The end of a process, counted. Every frame and every slot that the process had goes back to its
pool, those of its mappings in the first phase and those of anonymous pages in the second, which
alone are reported. Nothing that belongs to another process changes.
-/

namespace DemandPaging

variable {arch : Architecture}

theorem NumberMap.toList_perm_erase {kind : NumberKind} {β : Type} {map : NumberMap kind β}
    {key : Number kind} {value : β} (found : map[key]? = some value) :
    map.toList.Perm ((key, value) :: (map.erase key).toList) := by
  have nodup : ∀ map : NumberMap kind β, map.toList.Nodup := fun map =>
    (NumberMap.toList_distinct map).imp fun differs same => differs (congrArg Prod.fst same)
  refine (List.perm_ext_iff_of_nodup (nodup map) (List.nodup_cons.mpr ⟨?_, nodup _⟩)).mpr ?_
  · rw [Std.ExtTreeMap.mem_toList_iff_getElem?_eq_some, NumberMap.getElem?_erase, if_pos rfl]
    exact fun h => nomatch h
  · rintro ⟨other, listed⟩
    rw [List.mem_cons, Prod.mk.injEq, Std.ExtTreeMap.mem_toList_iff_getElem?_eq_some,
      Std.ExtTreeMap.mem_toList_iff_getElem?_eq_some, NumberMap.getElem?_erase]
    by_cases same : other = key
    · subst same
      simp [found, eq_comm]
    · simp [same]

theorem eq_filter_of_sublist {α : Type} {rest list : List α} (sublist : rest.Sublist list)
    (nodup : list.Nodup) {kept : α → Bool} (mem : ∀ x, x ∈ rest ↔ x ∈ list ∧ kept x = true) :
    rest = list.filter kept := by
  have all : rest.filter kept = rest :=
    List.filter_eq_self.mpr fun x inside => ((mem x).mp inside).2
  have within : rest.Sublist (list.filter kept) := all ▸ sublist.filter kept
  refine within.eq_of_length (List.Perm.length_eq ?_)
  refine (List.perm_ext_iff_of_nodup (nodup.sublist sublist) (nodup.filter kept)).mpr fun x => ?_
  rw [mem, List.mem_filter]

theorem PageEntry.slot?_isSome (entry : PageEntry) : entry.slot?.isSome = entry.isSwapped := by
  unfold slot? isSwapped
  cases entry.backing <;> rfl

namespace AddressSpace

variable {space left : AddressSpace arch}

theorem Strips.count (strips : space.Strips left)
    (anonymous : ∀ (page : PageNumber) (entry : PageEntry), left.entries[page]? = some entry →
      entry.mapping = none) (kind : PageEntry → Bool) :
    left.count kind = space.count fun entry => kind entry && entry.mapping.isNone := by
  have kept : left.entries = space.entries.filter fun _ entry => entry.mapping.isNone := by
    apply Std.ExtTreeMap.ext_getElem?
    intro page
    rw [Std.ExtTreeMap.getElem?_filter']
    refine Option.ext fun entry => ?_
    rw [Option.filter_eq_some_iff, Option.isNone_iff_eq_none]
    constructor
    · intro found
      have free := anonymous page entry found
      exact ⟨(strips page entry free).mp found, free⟩
    · rintro ⟨found, free⟩
      exact (strips page entry free).mpr found
  unfold AddressSpace.count
  rw [kept, Std.ExtTreeMap.toList_filter, List.countP_filter]

theorem Coherent.destroy_reports (coherent : space.Coherent) (stores : Stores arch) :
    (space.destroy stores).Satisfies (fun _ => True) fun (released, _) =>
      released = ⟨space.count PageEntry.isResident, space.count PageEntry.isSwapped⟩ := by
  unfold destroy
  refine .bind (coherent.drops stores) ?_
  rintro destruction ⟨_, released⟩
  exact .bind .any fun _ _ => .pure released

end AddressSpace

namespace Vm

variable {vm after : Vm arch} {process : ProcessId} {space : AddressSpace arch}
  {teardown : Teardown}

/-- What is left when a process has ended. All other processes have the address spaces that they
had, with all translations and their bits, and their frames and slots with all contents. -/
structure Departs (process : ProcessId) (space : AddressSpace arch) (teardown : Teardown)
    (vm after : Vm arch) : Prop where
  gone : after.spaces[process]? = none
  others : ∀ other, other ≠ process → after.spaces[other]? = vm.spaces[other]?
  mapping : ∀ id, after.mappings.get? id =
    (vm.mappings.get? id).filter fun mapping => mapping.owner ≠ process
  owners : ∀ frame, after.frames.ownerOf frame =
    (vm.frames.ownerOf frame).filter fun owner => owner.1 ≠ process
  freed : ∀ page frame, vm.Lives process page (.frame frame) → frame ∈ after.frames.pool.free
  slots : ∀ slot, after.swap.isAllocated slot = true ↔
    ∃ other page, other ≠ process ∧ vm.Lives other page (.swap slot)
  contents : after.frames.pool.contents = vm.frames.pool.contents
  device : after.swap.device = vm.swap.device
  queue : ∃ queue, vm.frames.IsQueue queue ∧ after.frames.IsQueue
    (queue.filter fun frame => (vm.frames.ownerOf frame).any fun owner => owner.1 ≠ process)
  freeFrames : after.stats.freeFrames = vm.stats.freeFrames + space.count PageEntry.isResident
  slotsUsed : after.stats.swapSlotsUsed + space.count PageEntry.isSwapped =
    vm.stats.swapSlotsUsed
  evictions : after.stats.evictions = vm.stats.evictions
  mappings : teardown.mappings =
    vm.mappings.mappings.toList.countP fun item => item.2.owner = process
  frames : teardown.frames =
    space.count fun entry => entry.isResident && entry.mapping.isNone
  swapSlots : teardown.swapSlots =
    space.count fun entry => entry.isSwapped && entry.mapping.isNone

theorem Sheds.lives_iff (sheds : vm.Sheds process after) (gone : after.spaces[process]? = none)
    {other : ProcessId} {page : PageNumber} {backing : Backing} :
    after.Lives other page backing ↔ other ≠ process ∧ vm.Lives other page backing := by
  unfold Lives
  by_cases own : other = process
  · subst own
    simp [gone]
  · simp [sheds.others other own, own]

theorem Consistent.count_frames (consistent : vm.Consistent fun _ => True)
    (found : vm.spaces[process]? = some space) {queue : List FrameNumber} (nodup : queue.Nodup)
    (tracked : ∀ frame, frame ∈ vm.frames → frame ∈ queue) :
    (queue.filter fun frame => (vm.frames.ownerOf frame).any fun owner => owner.1 = process).length
      = space.count PageEntry.isResident := by
  have entries : ∀ page, vm.layout.entry (process, page) = space.entries[page]? :=
    Tenants.entryAt_of_space found
  have frames : (space.entries.toList.filterMap fun item => item.2.frame?).Nodup := by
    unfold List.Nodup
    rw [List.pairwise_filterMap]
    refine (NumberMap.toList_distinct space.entries).imp_of_mem ?_
    rintro ⟨page, entry⟩ ⟨other, entry'⟩ listed later differs frame resident _ resident' rfl
    rw [Std.ExtTreeMap.mem_toList_iff_getElem?_eq_some] at listed later
    have same := consistent.layout_sound.unique (.frame frame) trivial
      ⟨entry, (entries page).trans listed, PageEntry.frame?_eq_some.mp resident⟩
      ⟨entry', (entries other).trans later, PageEntry.frame?_eq_some.mp resident'⟩
    exact differs (congrArg Prod.snd same).symm
  have perm : (queue.filter fun frame => (vm.frames.ownerOf frame).any fun owner =>
      owner.1 = process).Perm (space.entries.toList.filterMap fun item => item.2.frame?) := by
    refine (List.perm_ext_iff_of_nodup (nodup.filter _) frames).mpr fun frame => ?_
    simp only [List.mem_filter, List.mem_filterMap, Option.any_eq_true, decide_eq_true_eq,
      Prod.exists, Std.ExtTreeMap.mem_toList_iff_getElem?_eq_some, PageEntry.frame?_eq_some]
    constructor
    · rintro ⟨_, _, page, owned, rfl⟩
      obtain ⟨entry, listed, resident⟩ := (consistent.tenants.owners frame _).mp owned
      exact ⟨page, entry, (entries page).symm.trans listed, resident⟩
    · rintro ⟨page, entry, listed, resident⟩
      have owned := (consistent.tenants.owners frame (process, page)).mpr
        ⟨entry, (entries page).trans listed, resident⟩
      exact ⟨tracked frame (FrameTable.mem_of_ownerOf owned), process, page, owned, rfl⟩
  rw [perm.length_eq, List.length_filterMap_eq_countP]
  rfl

theorem Sheds.owners (sheds : vm.Sheds process after) (consistent : vm.Consistent fun _ => True)
    (consistent' : after.Consistent fun _ => True) (gone : after.spaces[process]? = none)
    (frame : FrameNumber) : after.frames.ownerOf frame =
      (vm.frames.ownerOf frame).filter fun owner => owner.1 ≠ process := by
  refine Option.ext fun owner => ?_
  rw [Option.filter_eq_some_iff, decide_eq_true_eq, consistent'.tenants.owners frame owner,
    consistent.tenants.owners frame owner, and_comm]
  exact Vm.lives_iff.symm.trans
    ((sheds.lives_iff gone).trans (and_congr_right fun _ => Vm.lives_iff))

theorem Sheds.freed (sheds : vm.Sheds process after) (consistent : vm.Consistent fun _ => True)
    (consistent' : after.Consistent fun _ => True) (gone : after.spaces[process]? = none)
    (page : PageNumber) (frame : FrameNumber) (lives : vm.Lives process page (.frame frame)) :
    frame ∈ after.frames.pool.free := by
  obtain ⟨_, _, inside⟩ := consistent.tracked_of_grants (Vm.lives_iff.mp lives)
  obtain ⟨_, wellFormed, _⟩ := consistent'.frames
  have inside : after.frames.pool.contains frame = true :=
    (FramePool.contains_congr sheds.stores.extent).trans inside
  refine ((wellFormed.contains frame).mp inside).resolve_right fun tracked => ?_
  have owned := (consistent.tenants.owners frame (process, page)).mpr (Vm.lives_iff.mp lives)
  rw [← FrameTable.ownerOf_isSome, sheds.owners consistent consistent' gone, owned] at tracked
  simp at tracked

theorem Sheds.frames_left (sheds : vm.Sheds process after)
    (consistent : vm.Consistent fun _ => True) (consistent' : after.Consistent fun _ => True)
    (gone : after.spaces[process]? = none) (found : vm.spaces[process]? = some space) :
    (∃ queue, vm.frames.IsQueue queue ∧ after.frames.IsQueue
      (queue.filter fun frame => (vm.frames.ownerOf frame).any fun owner => owner.1 ≠ process)) ∧
    after.frames.free = vm.frames.free + space.count PageEntry.isResident := by
  obtain ⟨ring, wellFormed, settled⟩ := consistent.frames
  obtain ⟨rest, wellFormed', settled'⟩ := consistent'.frames
  obtain ⟨again, shrunk, sublist⟩ := sheds.stores.ring ring wellFormed
  obtain rfl := shrunk.isRing.isQueue.unique wellFormed'.isRing.isQueue
  have owners := sheds.owners consistent consistent' gone
  have kept : again = ring.filter fun frame =>
      (vm.frames.ownerOf frame).any fun owner => owner.1 ≠ process := by
    refine eq_filter_of_sublist sublist wellFormed.isRing.nodup fun frame => ?_
    have tracked : frame ∈ again ↔ frame ∈ after.frames :=
      ⟨shrunk.isRing.mem, settled' frame⟩
    rw [tracked, ← FrameTable.ownerOf_isSome, owners, Option.isSome_filter]
    refine ⟨fun others => ⟨sublist.subset (settled' frame ?_), others⟩, And.right⟩
    rwa [← FrameTable.ownerOf_isSome, owners, Option.isSome_filter]
  refine ⟨⟨ring, wellFormed.isRing.isQueue, kept ▸ shrunk.isRing.isQueue⟩, ?_⟩
  have own := consistent.count_frames found wellFormed.isRing.nodup settled
  have parts := List.length_eq_length_filter_add (l := ring) fun frame =>
    (vm.frames.ownerOf frame).any fun owner => owner.1 = process
  have others : (ring.filter fun frame => !(vm.frames.ownerOf frame).any fun owner =>
      owner.1 = process) = again := by
    rw [kept]
    refine List.filter_congr fun frame member => ?_
    have tracked := wellFormed.isRing.mem member
    obtain ⟨owner, owned⟩ := Option.isSome_iff_exists.mp (FrameTable.ownerOf_isSome.mpr tracked)
    simp [owned]
  rw [own, others, wellFormed.length_eq_resident settled,
    wellFormed'.length_eq_resident settled'] at parts
  have total : after.frames.total = vm.frames.total :=
    congrArg (fun extent => extent.2.1) sheds.stores.extent
  have before := wellFormed.counted
  have left := wellFormed'.counted
  omega

theorem Sheds.spaces_eq (sheds : vm.Sheds process after) (gone : after.spaces[process]? = none) :
    after.spaces = vm.spaces.erase process := by
  apply Std.ExtTreeMap.ext_getElem?
  intro other
  rw [NumberMap.getElem?_erase]
  split
  · rename_i own
    rw [own, gone]
  · rename_i apart
    exact sheds.others other apart

theorem swapped_length (found : vm.spaces[process]? = some space)
    (spaces : after.spaces = vm.spaces.erase process) :
    vm.swapped.length = space.count PageEntry.isSwapped + after.swapped.length := by
  unfold swapped
  refine ((NumberMap.toList_perm_erase found).flatMap_right _).length_eq.trans ?_
  rw [spaces, List.flatMap_cons, List.length_append, List.length_filterMap_eq_countP]
  simp only [PageEntry.slot?_isSome]
  rfl

/-- The report of a process's end: its mappings, and of its pages those without a mapping. -/
theorem Consistent.exitProcess_reports (consistent : vm.Consistent fun _ => True)
    (found : vm.spaces[process]? = some space)
    (yields : (vm.exitProcess process).Yields (.ok teardown, after)) :
    teardown.mappings = vm.mappings.mappings.toList.countP (fun item => item.2.owner = process) ∧
    teardown.frames = space.count (fun entry => entry.isResident && entry.mapping.isNone) ∧
    teardown.swapSlots = space.count (fun entry => entry.isSwapped && entry.mapping.isNone) := by
  obtain ⟨middle, left, stores, removed, remains, destroyed, mappings, _⟩ :=
    exitProcess_parts yields
  have owned : ∀ id, id ∈ vm.mappings.ownedBy process ↔
      ∃ mapping, vm.layout.mapping id = some mapping ∧ mapping.owner = process :=
    fun id => MappingTable.mem_ownedBy
  have live : ∀ id, id ∈ vm.mappings.ownedBy process → (vm.layout.mapping id).isSome := by
    intro id member
    obtain ⟨mapping, live, _⟩ := (owned id).mp member
    exact Option.isSome_iff_exists.mpr ⟨mapping, live⟩
  obtain ⟨_, unmaps⟩ := (removeMappings_satisfies consistent
    (MappingTable.nodup_ownedBy vm.mappings process) live).of_yields removed
  have stripped : vm.Strips process middle := (removeMappings_owned vm process).of_yields removed
  obtain ⟨_, remains', strips⟩ := stripped.own space found
  cases remains.symm.trans remains'
  have anonymous : ∀ (page : PageNumber) (entry : PageEntry), left.entries[page]? = some entry →
      entry.mapping = none := fun page entry listed =>
    unmaps.anonymous owned page entry ((Tenants.entryAt_of_space remains page).trans listed)
  have reports := (unmaps.loses.consistent.tenants.spaces process left remains).2.destroy_reports
    middle.stores
  rw [destroyed] at reports
  obtain ⟨frames, slots⟩ := Released.mk.inj reports
  refine ⟨?_, frames.trans (strips.count anonymous _), slots.trans (strips.count anonymous _)⟩
  rw [mappings, MappingTable.ownedBy, Std.ExtTreeMap.length_keys, ← Std.ExtTreeMap.length_toList,
    Std.ExtTreeMap.toList_filter, List.countP_eq_length_filter]

/-- In every state a process that lives can be ended. All that it had is given back and counted, and
nothing else changes. -/
theorem Reachable.departs (reachable : Reachable vm) (found : vm.spaces[process]? = some space) :
    ∃ teardown after, (vm.exitProcess process).Yields (.ok teardown, after) ∧
      Departs process space teardown vm after := by
  have consistent := reachable.consistent
  obtain ⟨⟨result, after⟩, yields⟩ :=
    (reachable.guarded.exitProcess_satisfies reachable.readable process).exists_yields
  have outcome := (exitProcess_satisfies consistent process).of_yields yields
  cases result with
  | error cause =>
      have alive : vm.layout.live process = true := Tenants.live_iff.mpr ⟨space, found⟩
      cases alive.symm.trans outcome.2
  | ok teardown =>
      refine ⟨teardown, after, yields, ?_⟩
      have sheds := exitProcess_sheds yields
      have stepped : (vm.step (.exitProcess process)).Yields (.teardown teardown, after) :=
        Run.yields_bind.mpr ⟨_, yields, rfl⟩
      have reached : Reachable after := .step reachable stepped
      obtain ⟨middle, left, stores, _, _, _, _, ended⟩ := exitProcess_parts yields
      have gone : after.spaces[process]? = none := by
        rw [ended]
        exact (NumberMap.getElem?_erase middle.spaces process process).trans (if_pos rfl)
      obtain ⟨mappings, frames, swapSlots⟩ := consistent.exitProcess_reports found yields
      obtain ⟨queue, freeFrames⟩ := sheds.frames_left consistent reached.consistent gone found
      exact {
        gone, others := sheds.others, mapping := outcome.mapping
        owners := sheds.owners consistent reached.consistent gone
        freed := sheds.freed consistent reached.consistent gone
        slots := fun slot => by
          rw [reached.allocated_iff]
          simp only [sheds.lives_iff gone]
        contents := sheds.stores.contents, device := sheds.stores.device, queue, freeFrames
        slotsUsed := by
          have parts := swapped_length found (sheds.spaces_eq gone)
          rw [← reachable.used_eq, ← reached.used_eq, Nat.add_comm] at parts
          exact parts.symm
        evictions := sheds.stores.evictions, mappings, frames, swapSlots }

/-- Of two processes the first one ends, with a mapping and a page in swap; the second one keeps the
frame that its page is in. -/
theorem departs_first_process : ∃ (vm after : Vm .scaleModel) (space : AddressSpace .scaleModel),
    Reachable vm ∧ vm.spaces[(⟨1⟩ : ProcessId)]? = some space ∧
    (vm.exitProcess ⟨1⟩).Yields (.ok ⟨1, 0, 1⟩, after) ∧ Departs ⟨1⟩ space ⟨1, 0, 1⟩ vm after ∧
    after.frames.ownerOf ⟨16⟩ = some (⟨2⟩, ⟨2⟩) := by
  have passes : (oneFrame.run? [.createProcess ⟨1⟩, .createProcess ⟨2⟩,
      .replaceFile ⟨5⟩ #[7, 8, 9], .createMapping ⟨1⟩ ⟨5⟩ ⟨0x3000⟩ 3,
      .installPage ⟨1⟩ ⟨0x1000⟩ true, .installPage ⟨2⟩ ⟨0x2000⟩ true]).any (fun vm =>
        vm.spaces[(⟨1⟩ : ProcessId)]?.isSome &&
        decide (vm.frames.ownerOf ⟨16⟩ = some (⟨2⟩, ⟨2⟩)) &&
        (vm.exitProcess ⟨1⟩).passes fun ended => ended.1.toOption = some ⟨1, 0, 1⟩) = true := by
    decide +kernel
  simp only [Option.any_eq_true _ _, Run.passes_iff, Bool.and_eq_true, decide_eq_true_eq,
    Prod.exists] at passes
  obtain ⟨vm, ran, ⟨alive, owned⟩, result, after, ended, reported⟩ := passes
  obtain ⟨space, found⟩ := Option.isSome_iff_exists.mp alive
  have reachable := (Reachable.boot oneFrame_booted).run ran
  obtain ⟨teardown, last, yields, departs⟩ := reachable.departs found
  cases ended.symm.trans yields
  obtain rfl := Option.some.inj reported
  refine ⟨vm, after, space, reachable, found, yields, departs, ?_⟩
  rw [departs.owners, owned]
  rfl

end Vm
end DemandPaging
