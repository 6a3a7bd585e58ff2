import DemandPaging.Proofs.Vm
import DemandPaging.Proofs.Mappings
import DemandPaging.Vm.Process

/-!
The end of mappings and of processes. Every page that goes gives back its frame or its
slot, and a dirty page of a mapping is written to its file first. While pages are being
removed the machine is consistent at every point.
-/

namespace DemandPaging

variable {arch : Architecture} {tolerated : Violation → Prop}

namespace AddressSpace

variable {space : AddressSpace arch} {page : PageNumber} {entry : PageEntry}

theorem Coherent.erase (coherent : space.Coherent) (listed : space.entries[page]? = some entry)
    (elsewhere : entry.isResident = false) :
    space.Places page none { space with entries := space.entries.erase page } := by
  refine coherent.places_elsewhere ?_ (fun _ h => nomatch h) (NumberMap.getElem?_erase _ _)
  intro other found
  rw [listed] at found
  cases found
  exact elsewhere

theorem Coherent.unmap (coherent : space.Coherent) (page : PageNumber) :
    space.Places page none { space with
      entries := space.entries.erase page
      directory := (space.directory.unmap page).2 } :=
  coherent.places (NumberMap.getElem?_erase _ _)
    (fun other => space.directory.unmap_route page other)
    (fun other => space.directory.unmap_isDirty page other)

end AddressSpace

namespace Vm

variable {vm : Vm arch} {process : ProcessId} {space placed : AddressSpace arch}
  {page : PageNumber} {entry : PageEntry}

/-- The machine while a process's pages are being removed: this much of its space is left,
and the stores are these. -/
def during (vm : Vm arch) (process : ProcessId) (space : AddressSpace arch)
    (stores : Stores arch) : Vm arch :=
  { vm.setStores stores with spaces := vm.spaces.insert process space }

theorem during_self (found : vm.spaces[process]? = some space) :
    vm.during process space vm.stores = vm := by
  unfold during
  rw [NumberMap.insert_self vm.spaces found]
  rfl

theorem during_during (vm : Vm arch) (process : ProcessId) (first last : AddressSpace arch)
    (before after : Stores arch) :
    (vm.during process first before).during process last after =
      vm.during process last after := by
  unfold during
  rw [NumberMap.insert_insert]
  rfl

theorem during_spaces (vm : Vm arch) (process : ProcessId) (space : AddressSpace arch)
    (stores : Stores arch) : (vm.during process space stores).spaces[process]? = some space :=
  (NumberMap.getElem?_insert vm.spaces process process space).trans (if_pos rfl)

/-- What is left of frames and slots when a backing has been given back. -/
structure Frees (tolerated : Violation → Prop) (vm : Vm arch) (backing : Backing)
    (frames : FrameTable arch) (swap : SwapTable) : Prop where
  settled : ∃ ring, frames.WellFormed tolerated ring ∧
    ∀ frame, frame ∈ frames → frame ∈ ring
  contents : frames.pool.page = vm.frames.pool.page
  owners : ∀ frame, frames.ownerOf frame =
    if backing = .frame frame then none else vm.frames.ownerOf frame
  wellFormed : swap.WellFormed
  pages : swap.page = vm.swap.page
  slots : ∀ slot, swap.isAllocated slot = true ↔
    backing ≠ .swap slot ∧ vm.swap.isAllocated slot = true

theorem Consistent.frees_file (consistent : vm.Consistent tolerated) (id : MappingId) :
    vm.Frees tolerated (.file id) vm.frames vm.swap :=
  ⟨consistent.frames, rfl, fun _ => (if_neg (by simp)).symm, consistent.tenants.swap, rfl,
    fun _ => ⟨fun used => ⟨by simp, used⟩, And.right⟩⟩

theorem Consistent.frees_slot {unreached : Violation → Prop}
    (consistent : vm.Consistent unreached) {slot : SwapSlot}
    (allocated : vm.swap.isAllocated slot = true) :
    (vm.swap.release slot).Satisfies tolerated fun swap =>
      vm.Frees unreached (.swap slot) vm.frames swap := by
  refine .mono (SwapTable.release_satisfies consistent.tenants.swap allocated) ?_
  rintro swap ⟨wellFormed, pages, slots⟩
  refine ⟨consistent.frames, rfl, fun _ => (if_neg (by simp)).symm, wellFormed, pages, ?_⟩
  intro other
  rw [slots]
  refine and_congr_left fun _ => not_congr ?_
  rw [Backing.swap.injEq, eq_comm]

theorem Consistent.frees_frame {unreached : Violation → Prop}
    (consistent : vm.Consistent unreached) {frame : FrameNumber}
    (tracked : frame ∈ vm.frames) :
    (vm.frames.release frame).Satisfies tolerated fun frames =>
      vm.Frees unreached (.frame frame) frames vm.swap := by
  obtain ⟨ring, wellFormed, settled⟩ := consistent.frames
  refine .mono (FrameTable.release_satisfies wellFormed tracked) ?_
  rintro frames ⟨wellFormed', pages, owners⟩
  have owned : ∀ other, frames.ownerOf other =
      if other = frame then none else vm.frames.ownerOf other := by
    intro other
    rw [owners, Function.update_apply]
  refine ⟨⟨_, wellFormed', ?_⟩, pages, ?_, consistent.tenants.swap, rfl,
    fun _ => ⟨fun used => ⟨by simp, used⟩, And.right⟩⟩
  · intro other known
    rw [← FrameTable.ownerOf_isSome, owned] at known
    split at known
    · simp at known
    · rename_i differs
      exact (List.mem_erase_of_ne differs).mpr (settled other (FrameTable.ownerOf_isSome.mp known))
  · intro other
    rw [owned]
    simp only [Backing.frame.injEq, eq_comm]

theorem Consistent.without (consistent : vm.Consistent tolerated)
    (found : vm.spaces[process]? = some space) (listed : space.entries[page]? = some entry)
    (places : space.Places page none placed) {frames : FrameTable arch} {swap : SwapTable}
    (frees : vm.Frees tolerated entry.backing frames swap) (files : FileStore) :
    (vm.during process placed { frames, swap, files }).Consistent tolerated ∧
      (vm.during process placed { frames, swap, files }).layout =
        ({ vm.layout with files } : Layout).place (process, page) none := by
  have present : vm.layout.entry (process, page) = some entry :=
    (Tenants.entryAt_of_space found page).trans listed
  have layout := Tenants.setSpace_layout { vm.toTenants with swap, files } found places
    vm.frames.pool.page
  have before : ({ vm.toTenants with swap, files } : Tenants arch).layout vm.frames.pool.page =
      { vm.layout with files } := by
    rw [Tenants.restore_layout, frees.pages]
    rfl
  rw [before] at layout
  refine ⟨⟨frees.settled, ?_⟩, ?_⟩
  · refine consistent.tenants.place found places vm.frames.pool.page ?_ frees.wellFormed ?_ ?_
    · rw [layout]
      have sound : vm.layout.Sound tolerated := consistent.tenants.sound vm.frames.pool.page
      have sound' : ({ vm.layout with files } : Layout).Sound tolerated := sound.congr rfl rfl rfl
      exact sound'.remove (process, page)
    · intro frame
      have owned := consistent.tenants.owners frame (process, page)
      refine (frees.owners frame).trans ?_
      rw [Option.bind_none, if_neg (by simp : ¬(none : Option FrameNumber) = some frame)]
      refine if_congr ?_ rfl rfl
      rw [owned]
      refine ⟨fun source => ⟨entry, present, source⟩, ?_⟩
      rintro ⟨again, found', source⟩
      cases present.symm.trans found'
      exact source
    · intro slot
      rw [frees.slots, and_comm]
      refine ⟨fun used => .inr ⟨used.1, ?_⟩, ?_⟩
      · intro again found'
        cases present.symm.trans found'
        exact used.2
      · rintro (⟨_, ⟨⟩, _⟩ | ⟨used, freed⟩)
        exact ⟨used, freed entry present⟩
  · change (({ vm.toTenants with swap, files } : Tenants arch).setSpace process placed).layout
      frames.pool.page = _
    rw [frees.contents]
    exact layout

theorem Consistent.writeBack_satisfies (consistent : vm.Consistent tolerated)
    (found : vm.spaces[process]? = some space) (listed : space.entries[page]? = some entry)
    {frame : FrameNumber} (resident : entry.backing = .frame frame) {mapping : Mapping}
    (belongs : entry.mapping = some mapping.id)
    (live : vm.mappings.get? mapping.id = some mapping) :
    (space.writeBack vm.stores mapping page frame).Satisfies tolerated fun files =>
      Relation.ReflTransGen Shift vm.layout { vm.layout with files } ∧
        (vm.layout.dirty (process, page) = true → ∃ before result,
          mapping.writePage before page (vm.layout.frame frame) = .ok (result, files)) := by
  have present : vm.layout.entry (process, page) = some entry :=
    (Tenants.entryAt_of_space found page).trans listed
  have sound : vm.layout.Sound tolerated := consistent.tenants.sound vm.frames.pool.page
  obtain ⟨again, live', _, inside, _⟩ := (sound.admits _ entry present).mapped _ belongs
  cases live.symm.trans live'
  have range := sound.ranges mapping.id mapping page live' inside
  obtain ⟨ring, wellFormed, settled⟩ := consistent.frames
  have tracked : frame ∈ vm.frames :=
    FrameTable.mem_of_ownerOf
      ((consistent.tenants.owners frame (process, page)).mpr ⟨entry, present, resident⟩)
  have dirtyAt : vm.layout.dirty (process, page) = space.directory.isDirty page :=
    Tenants.dirtyAt_of_space found page
  unfold AddressSpace.writeBack
  split
  · refine .bind (.lift (FrameTable.bytes_satisfies wellFormed
      (wellFormed.inside_of_tracked tracked))) ?_
    rintro source rfl
    refine .bind (.lift (.of_errors fun violation failed =>
      range violation (Mapping.writePage_eq_error failed))) ?_
    rintro ⟨result, files⟩ written
    have write := Shift.writeBack vm.layout (process, page) entry frame mapping.id mapping
      result files present resident belongs live' written
    cases result with
    | ok _ => exact .pure ⟨.single write, fun _ => ⟨_, _, written⟩⟩
    | error cause =>
        refine .bind .log fun _ _ => ?_
        exact .pure ⟨.single write, fun _ => ⟨_, _, written⟩⟩
  · rename_i clean
    refine .pure ⟨.refl, fun dirty => ?_⟩
    exact absurd (dirtyAt.symm.trans dirty) clean

/-- The machine has lost pages on the way to the end of mappings, and no page has changed. -/
structure Loses (tolerated : Violation → Prop) (ended : MappingId → Prop)
    (vm after : Vm arch) : Prop where
  consistent : after.Consistent tolerated
  path : Relation.ReflTransGen (Shrink ended) vm.layout after.layout
  fewer : ∀ page entry, after.layout.entry page = some entry → vm.layout.entry page = some entry

theorem Loses.refl (consistent : vm.Consistent tolerated) (ended : MappingId → Prop) :
    Loses tolerated ended vm vm :=
  ⟨consistent, .refl, fun _ _ same => same⟩

theorem Loses.trans {ended : MappingId → Prop} {middle after : Vm arch}
    (first : Loses tolerated ended vm middle) (rest : Loses tolerated ended middle after) :
    Loses tolerated ended vm after :=
  ⟨rest.consistent, first.path.trans rest.path,
    fun page entry found => first.fewer page entry (rest.fewer page entry found)⟩

theorem Consistent.loses (consistent : vm.Consistent tolerated)
    (found : vm.spaces[process]? = some space) (listed : space.entries[page]? = some entry)
    (places : space.Places page none placed) {frames : FrameTable arch} {swap : SwapTable}
    (frees : vm.Frees tolerated entry.backing frames swap) {files : FileStore}
    (ended : MappingId → Prop) (belongs : ∀ id, entry.mapping = some id → ended id)
    (path : Relation.ReflTransGen Shift vm.layout { vm.layout with files })
    (saved : ∀ frame id mapping, entry.backing = .frame frame → entry.mapping = some id →
      vm.layout.mapping id = some mapping → vm.layout.dirty (process, page) = true →
        ∃ before result,
          mapping.writePage before page (vm.layout.frame frame) = .ok (result, files)) :
    Loses tolerated ended vm (vm.during process placed { frames, swap, files }) ∧
      (vm.during process placed { frames, swap, files }).layout.entry (process, page) = none := by
  have present : vm.layout.entry (process, page) = some entry :=
    (Tenants.entryAt_of_space found page).trans listed
  obtain ⟨consistent', layout⟩ := consistent.without found listed places frees files
  refine ⟨⟨consistent', ?_, ?_⟩, ?_⟩
  · rw [layout]
    refine .tail (Shrink.of_moves path) ?_
    exact .remove { vm.layout with files } (process, page) entry present belongs saved
  · intro other present'
    rw [layout, Layout.place_entry]
    split
    · rintro ⟨⟩
    · exact fun same => same
  · rw [layout, Layout.place_entry, if_pos rfl]

theorem uninstall_satisfies (consistent : vm.Consistent tolerated)
    (found : vm.spaces[process]? = some space) {mapping : Mapping}
    (live : vm.mappings.get? mapping.id = some mapping) {ended : MappingId → Prop}
    (ending : ended mapping.id) (page : PageNumber) :
    (space.uninstall vm.stores mapping page).Satisfies tolerated fun (_, placed, stores) =>
      Loses tolerated ended vm (vm.during process placed stores) ∧
        ∀ entry, (vm.during process placed stores).layout.entry (process, page) = some entry →
          entry.mapping ≠ some mapping.id := by
  have unchanged : (∀ entry, space.entries[page]? = some entry →
      entry.mapping ≠ some mapping.id) → Loses tolerated ended vm
        (vm.during process space vm.stores) ∧ ∀ entry, (vm.during process space
          vm.stores).layout.entry (process, page) = some entry →
            entry.mapping ≠ some mapping.id := by
    intro unnamed
    rw [during_self found]
    refine ⟨.refl consistent ended, ?_⟩
    intro entry present
    exact unnamed entry ((Tenants.entryAt_of_space found page).symm.trans present)
  have coherent := (consistent.tenants.spaces process space found).2
  unfold AddressSpace.uninstall
  cases listed : space.entries[page]? with
  | none => exact .pure (unchanged (by simp [listed]))
  | some entry =>
      have present : vm.layout.entry (process, page) = some entry :=
        (Tenants.entryAt_of_space found page).trans listed
      dsimp only
      split
      · rename_i foreign
        refine .pure (unchanged ?_)
        rw [listed]
        rintro _ ⟨⟩
        exact foreign
      · rename_i belongs
        rw [not_not] at belongs
        have within : ∀ id, entry.mapping = some id → ended id := by
          intro id named
          cases belongs.symm.trans named
          exact ending
        have gone : ∀ after : Vm arch, Loses tolerated ended vm after ∧
            after.layout.entry (process, page) = none → Loses tolerated ended vm after ∧
              ∀ entry, after.layout.entry (process, page) = some entry →
                entry.mapping ≠ some mapping.id := by
          rintro after ⟨loses, absent⟩
          refine ⟨loses, fun entry present => ?_⟩
          exact absurd (absent.symm.trans present) (by simp)
        cases resident : entry.backing with
        | file id =>
            have elsewhere : entry.isResident = false :=
              PageEntry.isResident_eq_false (by simp [resident])
            refine .pure (gone _ (consistent.loses found listed
              (coherent.erase listed elsewhere) ?_ ended within .refl ?_))
            · rw [resident]
              exact consistent.frees_file id
            · simp [resident]
        | swap slot =>
            have elsewhere : entry.isResident = false :=
              PageEntry.isResident_eq_false (by simp [resident])
            have allocated := (consistent.tenants.slots slot).mpr ⟨_, entry, present, resident⟩
            refine .bind (.lift (consistent.frees_slot allocated)) ?_
            intro swap frees
            refine .pure (gone _ (consistent.loses found listed
              (coherent.erase listed elsewhere) ?_ ended within .refl ?_))
            · rwa [resident]
            · simp [resident]
        | frame frame =>
            have tracked : frame ∈ vm.frames := FrameTable.mem_of_ownerOf
              ((consistent.tenants.owners frame _).mpr ⟨entry, present, resident⟩)
            -- a dirty page is in the file before its frame goes back to the pool
            refine .bind (consistent.writeBack_satisfies found listed resident belongs live) ?_
            rintro files ⟨path, saved⟩
            refine .bind (.lift (consistent.frees_frame tracked)) ?_
            intro frames frees
            refine .pure (gone _ (consistent.loses found listed (coherent.unmap page) ?_ ended
              within path ?_))
            · rwa [resident]
            · intro other id known source named owned dirty
              cases resident.symm.trans source
              cases belongs.symm.trans named
              cases live.symm.trans owned
              exact saved dirty

/-- While a mapping is being removed: its pages but those that are left have gone. -/
structure Removing (tolerated : Violation → Prop) (ended : MappingId → Prop) (vm : Vm arch)
    (mapping : Mapping) (rest : List PageNumber) (removal : Removal arch) : Prop where
  loses : Loses tolerated ended vm (vm.during mapping.owner removal.space removal.stores)
  gone : ∀ page, mapping.contains page → page ∉ rest → ∀ entry,
    (vm.during mapping.owner removal.space removal.stores).layout.entry (mapping.owner, page) =
      some entry → entry.mapping ≠ some mapping.id

theorem Consistent.removing (consistent : vm.Consistent tolerated) {mapping : Mapping}
    {space : AddressSpace arch} (found : vm.spaces[mapping.owner]? = some space)
    (ended : MappingId → Prop) :
    Removing tolerated ended vm mapping mapping.pages { space, stores := vm.stores } := by
  refine ⟨?_, fun page inside outside => absurd (Mapping.mem_pages.mpr inside) outside⟩
  rw [during_self found]
  exact .refl consistent ended

theorem Removing.dropPage_satisfies {ended : MappingId → Prop} {mapping : Mapping}
    {page : PageNumber} {rest : List PageNumber} {removal : Removal arch}
    (removing : Removing tolerated ended vm mapping (page :: rest) removal)
    (live : vm.mappings.get? mapping.id = some mapping) (ending : ended mapping.id) :
    (Removal.dropPage mapping removal page).Satisfies tolerated
      (Removing tolerated ended vm mapping rest) := by
  obtain ⟨loses, gone⟩ := removing
  have drops := uninstall_satisfies loses.consistent (during_spaces vm mapping.owner removal.space
    removal.stores) live ending page
  refine .bind drops ?_
  rintro ⟨removed, placed, stores⟩ ⟨loses', unnamed⟩
  rw [during_during] at loses' unnamed
  refine .pure ⟨loses.trans loses', ?_⟩
  intro other inside outside entry present
  by_cases same : other = page
  · subst same
    exact unnamed entry present
  · refine gone other inside ?_ entry (loses'.fewer _ entry present)
    simp [same, outside]

theorem Consistent.unmap (consistent : vm.Consistent tolerated) (id : MappingId)
    (unused : ∀ page entry, vm.layout.entry page = some entry → entry.mapping ≠ some id) :
    ({ vm with toTenants := { vm.toTenants with mappings := vm.mappings.erase id } } :
      Vm arch).Consistent tolerated ∧
    ({ vm with toTenants := { vm.toTenants with mappings := vm.mappings.erase id } } :
      Vm arch).layout = { vm.layout with
        mapping := Function.update vm.layout.mapping id none } := by
  have layout : ∀ contents, ({ vm.toTenants with mappings := vm.mappings.erase id } :
      Tenants arch).layout contents = { vm.toTenants.layout contents with
        mapping := Function.update vm.layout.mapping id none } := by
    intro contents
    refine Layout.ext rfl rfl rfl rfl rfl rfl (funext fun other => ?_)
    exact (NumberMap.getElem?_erase _ id other).trans (Function.update_apply _ _ _ _).symm
  obtain ⟨frames, sound, spaces, owners, swap, slots, numbered⟩ := consistent
  refine ⟨⟨frames, ?_, spaces, owners, swap, slots, ?_⟩, layout _⟩
  · intro contents
    rw [layout]
    exact (sound contents).shrink (.unmap (vm.toTenants.layout contents) id rfl unused)
  · intro other mapping live
    change (vm.mappings.mappings.erase id)[other]? = some mapping at live
    rw [NumberMap.getElem?_erase] at live
    split at live
    · cases live
    · exact numbered other mapping live

/-- The listed mappings have been removed with all their pages. -/
structure Unmaps (tolerated : Violation → Prop) (ids : List MappingId) (vm after : Vm arch) :
    Prop where
  stack : after.stack = vm.stack
  loses : Loses tolerated (· ∈ ids) vm after
  live : after.layout.live = vm.layout.live
  mapping : ∀ id, after.layout.mapping id = if id ∈ ids then none else vm.layout.mapping id

theorem Loses.unmaps {middle : Vm arch} {id : MappingId}
    (loses : Loses tolerated (· ∈ [id]) vm middle) (stack : middle.stack = vm.stack)
    (live : middle.layout.live = vm.layout.live)
    (mapping : middle.layout.mapping = vm.layout.mapping)
    (unused : ∀ page entry, middle.layout.entry page = some entry → entry.mapping ≠ some id) :
    Unmaps tolerated [id] vm
      { middle with toTenants := { middle.toTenants with mappings := middle.mappings.erase id } } := by
  obtain ⟨consistent, layout⟩ := loses.consistent.unmap id unused
  refine ⟨stack, ⟨consistent, ?_, ?_⟩, ?_, ?_⟩
  · rw [layout]
    exact loses.path.tail (.unmap _ id List.mem_cons_self unused)
  · rw [layout]
    exact loses.fewer
  · rw [layout]
    exact live
  · intro other
    rw [layout, ← mapping]
    exact (Function.update_apply _ _ _ _).trans (if_congr List.mem_singleton.symm rfl rfl)

/-- Removing a mapping that is live takes all of its pages and then the mapping. -/
theorem removeMapping_satisfies (consistent : vm.Consistent tolerated) {id : MappingId}
    {mapping : Mapping} (live : vm.layout.mapping id = some mapping) :
    (vm.removeMapping id).Satisfies tolerated fun (result, after) =>
      result = .ok () ∧ Unmaps tolerated [id] vm after := by
  have sound : vm.layout.Sound tolerated := consistent.tenants.sound vm.frames.pool.page
  obtain rfl := sound.named id mapping live
  obtain ⟨space, found⟩ := Tenants.live_iff.mp (sound.housed mapping.id mapping live)
  change vm.mappings.get? mapping.id = some mapping at live
  unfold removeMapping
  simp only [live, found]
  refine .bind (.foldlM (Removing tolerated (· ∈ [mapping.id]) vm mapping)
    (consistent.removing found _) fun page rest removal removing =>
      removing.dropPage_satisfies live List.mem_cons_self) ?_
  rintro removal ⟨loses, gone⟩
  refine .bind .log fun _ _ => ?_
  refine .pure ⟨rfl, loses.unmaps rfl (Tenants.setSpace_live found) rfl ?_⟩
  intro page entry present named
  obtain ⟨again, live', owner, inside, _⟩ :=
    ((loses.consistent.tenants.sound _).admits page entry present).mapped _ named
  cases live.symm.trans live'
  obtain ⟨process, number⟩ := page
  cases owner
  exact gone number inside List.not_mem_nil entry present named

theorem destroyMapping_satisfies (consistent : vm.Consistent tolerated) (process : ProcessId)
    (id : MappingId) :
    (vm.destroyMapping process id).Satisfies tolerated fun (result, after) =>
      match result with
      | .error _ => after = vm ∧
          ∀ mapping, vm.layout.mapping id = some mapping → mapping.owner ≠ process
      | .ok () => Unmaps tolerated [id] vm after := by
  unfold destroyMapping
  split
  · rename_i mine
    obtain ⟨mapping, live, owner⟩ := (Option.any_eq_true _ _).mp mine
    refine .mono (removeMapping_satisfies consistent live) ?_
    rintro ⟨result, after⟩ ⟨rfl, unmaps⟩
    exact unmaps
  · rename_i foreign
    refine .pure ⟨rfl, fun mapping live mine => foreign ?_⟩
    exact (Option.any_eq_true _ _).mpr ⟨mapping, live, decide_eq_true mine⟩

theorem Unmaps.cons {id : MappingId} {rest : List MappingId} {middle after : Vm arch}
    (first : Unmaps tolerated [id] vm middle) (unmaps : Unmaps tolerated rest middle after) :
    Unmaps tolerated (id :: rest) vm after := by
  have before : Loses tolerated (· ∈ id :: rest) vm middle := by
    refine ⟨first.loses.consistent, ?_, first.loses.fewer⟩
    refine Relation.ReflTransGen.mono (fun _ _ => Shrink.mono ?_) _ _ first.loses.path
    intro other same
    rw [List.mem_singleton] at same
    exact same ▸ List.mem_cons_self
  have later : Loses tolerated (· ∈ id :: rest) middle after := by
    refine ⟨unmaps.loses.consistent, ?_, unmaps.loses.fewer⟩
    refine Relation.ReflTransGen.mono (fun _ _ => Shrink.mono ?_) _ _ unmaps.loses.path
    exact fun other => List.mem_cons_of_mem id
  refine ⟨unmaps.stack.trans first.stack, before.trans later, unmaps.live.trans first.live, ?_⟩
  intro other
  rw [unmaps.mapping, first.mapping]
  simp only [List.mem_cons, List.not_mem_nil, or_false]
  split <;> split <;> simp_all

theorem removeMappings_satisfies (consistent : vm.Consistent tolerated) {ids : List MappingId}
    (nodup : ids.Nodup) (live : ∀ id, id ∈ ids → (vm.layout.mapping id).isSome) :
    (vm.removeMappings ids).Satisfies tolerated fun (result, after) =>
      result = .ok () ∧ Unmaps tolerated ids vm after := by
  induction ids generalizing vm with
  | nil =>
      refine .pure ⟨rfl, rfl, .refl consistent _, rfl, fun id => ?_⟩
      rw [if_neg List.not_mem_nil]
  | cons id rest ih =>
      obtain ⟨fresh, nodup⟩ := List.nodup_cons.mp nodup
      obtain ⟨mapping, found⟩ := Option.isSome_iff_exists.mp (live id List.mem_cons_self)
      refine .bind (removeMapping_satisfies consistent found) ?_
      rintro ⟨_, middle⟩ ⟨rfl, first⟩
      refine .mono (ih first.loses.consistent nodup ?_) ?_
      · intro other member
        -- the mappings differ, so removing one leaves the others
        rw [first.mapping, if_neg]
        · exact live other (List.mem_cons_of_mem id member)
        · rw [List.mem_singleton]
          rintro rfl
          exact fresh member
      · rintro ⟨result, after⟩ ⟨rfl, unmaps⟩
        exact ⟨rfl, first.cons unmaps⟩

end Vm
end DemandPaging
