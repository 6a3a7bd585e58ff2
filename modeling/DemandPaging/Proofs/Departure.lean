import DemandPaging.Proofs.Conservation
import DemandPaging.Proofs.Processes

/-!
What the removal of pages leaves alone. Frames and slots are given back with their contents, the
frames left in the ring keep their order, and no page is evicted. While the mappings of a process
and then the process are taken down, the address spaces of all others are the same.
-/

namespace DemandPaging

variable {arch : Architecture}

namespace Stores

variable {stores left last : Stores arch}

/-- Frames and slots have been given back. All contents are as they were, and so are the number of
evictions and the order of the frames that are left in the ring. -/
structure Sheds (stores left : Stores arch) : Prop where
  extent : left.frames.extent = stores.frames.extent
  contents : left.frames.pool.contents = stores.frames.pool.contents
  evictions : left.frames.evictions = stores.frames.evictions
  device : left.swap.device = stores.swap.device
  ring : ∀ ring, stores.frames.WellFormed (fun _ => True) ring →
    ∃ rest, left.frames.WellFormed (fun _ => True) rest ∧ rest.Sublist ring

theorem Sheds.refile (stores : Stores arch) (files : FileStore) :
    stores.Sheds { stores with files } :=
  ⟨rfl, rfl, rfl, rfl, fun ring wellFormed => ⟨ring, wellFormed, .refl ring⟩⟩

theorem Sheds.refl (stores : Stores arch) : stores.Sheds stores :=
  .refile stores stores.files

theorem Sheds.trans (sheds : stores.Sheds left) (later : left.Sheds last) : stores.Sheds last := by
  refine ⟨later.extent.trans sheds.extent, later.contents.trans sheds.contents,
    later.evictions.trans sheds.evictions, later.device.trans sheds.device, ?_⟩
  intro ring wellFormed
  obtain ⟨rest, wellFormed, fewer⟩ := sheds.ring ring wellFormed
  obtain ⟨rest', wellFormed, fewer'⟩ := later.ring rest wellFormed
  exact ⟨rest', wellFormed, fewer'.trans fewer⟩

theorem Sheds.frame (stores : Stores arch) (frame : FrameNumber) :
    (stores.frames.release frame).Satisfies (fun _ => True) fun frames =>
      stores.Sheds { stores with frames } := by
  refine .mono (.and (.and (.of_errors fun _ _ => trivial) FrameTable.release_extent)
    FrameTable.release_pool) ?_
  rintro frames ⟨⟨done, extent⟩, pool, evictions⟩
  refine ⟨extent, by rw [pool], evictions, rfl, fun ring wellFormed => ?_⟩
  have released : (stores.frames.release frame).Satisfies (fun _ => True) _ :=
    FrameTable.release_satisfies wellFormed (FrameTable.mem_of_release done)
  rw [done] at released
  exact ⟨ring.erase frame, released.1, List.erase_sublist⟩

theorem Sheds.slot (stores : Stores arch) (slot : SwapSlot) :
    (stores.swap.release slot).Satisfies (fun _ => True) fun swap =>
      stores.Sheds { stores with swap } :=
  .bind .any fun _ _ =>
    .pure ⟨rfl, rfl, rfl, rfl, fun ring wellFormed => ⟨ring, wellFormed, .refl ring⟩⟩

end Stores

namespace AddressSpace

variable {space left last : AddressSpace arch}

/-- Pages of mappings may have gone; the pages that belong to none are those that there were. -/
def Strips (space left : AddressSpace arch) : Prop :=
  ∀ (page : PageNumber) (entry : PageEntry), entry.mapping = none →
    (left.entries[page]? = some entry ↔ space.entries[page]? = some entry)

theorem Strips.refl (space : AddressSpace arch) : space.Strips space :=
  fun _ _ _ => Iff.rfl

theorem Strips.trans (strips : space.Strips left) (later : left.Strips last) :
    space.Strips last :=
  fun page entry free => (later page entry free).trans (strips page entry free)

theorem uninstall_sheds (space : AddressSpace arch) (stores : Stores arch) (mapping : Mapping)
    (page : PageNumber) :
    (space.uninstall stores mapping page).Satisfies (fun _ => True) fun (_, left, after) =>
      stores.Sheds after ∧ space.Strips left := by
  unfold uninstall
  cases listed : space.entries[page]? with
  | none => exact .pure ⟨.refl stores, .refl space⟩
  | some entry =>
      dsimp only
      split
      · exact .pure ⟨.refl stores, .refl space⟩
      · rename_i belongs
        rw [not_not] at belongs
        have strips : ∀ left : AddressSpace arch, left.entries = space.entries.erase page →
            space.Strips left := by
          intro left erased other kept free
          rw [erased, NumberMap.getElem?_erase]
          split
          · rename_i same
            rw [same, listed, Option.some.injEq]
            refine iff_of_false (fun h => nomatch h) ?_
            rintro rfl
            exact absurd (belongs.symm.trans free) (by simp)
          · rfl
        cases entry.backing with
        | file id => exact .pure ⟨.refl stores, strips _ rfl⟩
        | swap slot =>
            exact .bind (.lift (Stores.Sheds.slot stores slot)) fun swap sheds =>
              .pure ⟨sheds, strips _ rfl⟩
        | frame frame =>
            refine .bind .any fun files _ => ?_
            refine .bind (.lift (Stores.Sheds.frame stores frame)) fun frames sheds => ?_
            exact .pure ⟨sheds.trans (.refile _ files), strips _ rfl⟩

theorem destroy_sheds (space : AddressSpace arch) (stores : Stores arch) :
    (space.destroy stores).Satisfies (fun _ => True) fun (_, after) => stores.Sheds after := by
  unfold destroy
  refine .bind (.foldlM (fun _ (destruction : Destruction arch) => stores.Sheds destruction.stores)
    (.refl stores) ?_) fun destruction sheds => .bind .any fun _ _ => .pure sheds
  rintro ⟨page, entry⟩ rest ⟨directory, before, released⟩ sheds
  unfold Destruction.dropEntry
  cases entry.backing with
  | file id => exact .pure sheds
  | swap slot =>
      exact .bind (Stores.Sheds.slot before slot) fun swap more => .pure (sheds.trans more)
  | frame frame =>
      exact .bind (Stores.Sheds.frame before frame) fun frames more => .pure (sheds.trans more)

end AddressSpace

namespace Vm

variable {vm middle after : Vm arch} {process : ProcessId} {id : MappingId}

/-- Pages of a process have gone, with their frames and slots, and no other process has changed. -/
structure Sheds (process : ProcessId) (vm after : Vm arch) : Prop where
  stores : vm.stores.Sheds after.stores
  others : ∀ other, other ≠ process → after.spaces[other]? = vm.spaces[other]?

theorem Sheds.refl (process : ProcessId) (vm : Vm arch) : vm.Sheds process vm :=
  ⟨.refl vm.stores, fun _ _ => rfl⟩

theorem Sheds.trans (sheds : vm.Sheds process middle) (later : middle.Sheds process after) :
    vm.Sheds process after :=
  ⟨sheds.stores.trans later.stores,
    fun other apart => (later.others other apart).trans (sheds.others other apart)⟩

/-- Mappings of a process have gone, with their pages. -/
structure Strips (process : ProcessId) (vm after : Vm arch) : Prop extends
    vm.Sheds process after where
  own : ∀ space, vm.spaces[process]? = some space →
    ∃ left, after.spaces[process]? = some left ∧ space.Strips left
  mapping : ∀ id mapping, after.mappings.get? id = some mapping →
    vm.mappings.get? id = some mapping

theorem Strips.refl (process : ProcessId) (vm : Vm arch) : vm.Strips process vm :=
  ⟨.refl process vm, fun space found => ⟨space, found, .refl space⟩, fun _ _ live => live⟩

theorem Strips.trans (strips : vm.Strips process middle) (later : middle.Strips process after) :
    vm.Strips process after := by
  refine ⟨strips.toSheds.trans later.toSheds, fun space found => ?_, fun id mapping live =>
    strips.mapping id mapping (later.mapping id mapping live)⟩
  obtain ⟨left, found, gone⟩ := strips.own space found
  obtain ⟨last, found, gone'⟩ := later.own left found
  exact ⟨last, found, gone.trans gone'⟩

theorem removeMapping_strips (owned : ∀ mapping, vm.mappings.get? id = some mapping →
      mapping.owner = process) :
    (vm.removeMapping id).Satisfies (fun _ => True) fun (_, after) => vm.Strips process after := by
  unfold removeMapping
  cases live : vm.mappings.get? id with
  | none => exact .pure (.refl process vm)
  | some mapping =>
      obtain rfl := owned mapping live
      dsimp only
      cases found : vm.spaces[mapping.owner]? with
      | none => trivial
      | some space =>
          dsimp only
          refine .bind (.foldlM (fun _ (removal : Removal arch) =>
            vm.stores.Sheds removal.stores ∧ space.Strips removal.space)
              ⟨.refl vm.stores, .refl space⟩ ?_) ?_
          · rintro page rest removal ⟨sheds, strips⟩
            refine .bind (AddressSpace.uninstall_sheds removal.space removal.stores mapping page) ?_
            rintro ⟨removed, left, stores⟩ ⟨sheds', strips'⟩
            exact .pure ⟨sheds.trans sheds', strips.trans strips'⟩
          · rintro removal ⟨sheds, strips⟩
            refine .bind .log fun _ _ => .pure ⟨⟨sheds, fun other apart => ?_⟩, ?_, ?_⟩
            · exact (NumberMap.getElem?_insert vm.spaces _ other _).trans (if_neg apart)
            · intro before again
              cases found.symm.trans again
              exact ⟨removal.space,
                (NumberMap.getElem?_insert vm.spaces _ _ _).trans (if_pos rfl), strips⟩
            · intro other kept live'
              change (vm.mappings.mappings.erase id)[other]? = some kept at live'
              rw [NumberMap.getElem?_erase] at live'
              split at live'
              · cases live'
              · exact live'

theorem removeMappings_strips {ids : List MappingId}
    (owned : ∀ id ∈ ids, ∀ mapping, vm.mappings.get? id = some mapping →
      mapping.owner = process) :
    (vm.removeMappings ids).Satisfies (fun _ => True) fun (_, after) =>
      vm.Strips process after := by
  induction ids generalizing vm with
  | nil => exact .pure (.refl process vm)
  | cons id rest ih =>
      refine .bind (removeMapping_strips (owned id List.mem_cons_self)) ?_
      rintro ⟨result, middle⟩ strips
      cases result with
      | error cause => exact .pure strips
      | ok _ =>
          refine .mono (ih fun other member mapping live => ?_) fun _ => strips.trans
          exact owned other (List.mem_cons_of_mem id member) mapping
            (strips.mapping other mapping live)

theorem removeMappings_owned (vm : Vm arch) (process : ProcessId) :
    (vm.removeMappings (vm.mappings.ownedBy process)).Satisfies (fun _ => True) fun (_, after) =>
      vm.Strips process after := by
  refine removeMappings_strips fun id member mapping live => ?_
  obtain ⟨_, live', mine⟩ := MappingTable.mem_ownedBy.mp member
  cases live.symm.trans live'
  exact mine

/-- The end of a process takes down its mappings, and then destroys what is left of its space. -/
theorem exitProcess_parts {teardown : Teardown}
    (yields : (vm.exitProcess process).Yields (.ok teardown, after)) :
    ∃ (middle : Vm arch) (left : AddressSpace arch) (stores : Stores arch),
      (vm.removeMappings (vm.mappings.ownedBy process)).Yields (.ok (), middle) ∧
      middle.spaces[process]? = some left ∧
      left.destroy middle.stores = .ok (⟨teardown.frames, teardown.swapSlots⟩, stores) ∧
      teardown.mappings = (vm.mappings.ownedBy process).length ∧
      after = { middle.setStores stores with spaces := middle.spaces.erase process } := by
  unfold exitProcess at yields
  split at yields
  · cases yields
  · obtain ⟨⟨result, middle⟩, removed, yields⟩ := Run.yields_bind.mp yields
    cases result with
    | error cause => cases yields
    | ok _ =>
        cases found : middle.spaces[process]? with
        | none =>
            simp only [found] at yields
            cases yields
        | some left =>
            simp only [found] at yields
            obtain ⟨⟨released, stores⟩, destroyed, yields⟩ := Run.yields_bind.mp yields
            obtain ⟨_, _, yields⟩ := Run.yields_bind.mp yields
            cases yields
            exact ⟨middle, left, stores, removed, found, destroyed, rfl, rfl⟩

theorem exitProcess_sheds {teardown : Teardown}
    (yields : (vm.exitProcess process).Yields (.ok teardown, after)) : vm.Sheds process after := by
  obtain ⟨middle, left, stores, removed, _, destroyed, _, rfl⟩ := exitProcess_parts yields
  have strips : vm.Strips process middle := (removeMappings_owned vm process).of_yields removed
  have destroys := left.destroy_sheds middle.stores
  rw [destroyed] at destroys
  refine strips.toSheds.trans ⟨destroys, fun other apart => ?_⟩
  exact (NumberMap.getElem?_erase middle.spaces process other).trans (if_neg apart)

end Vm
end DemandPaging
