import DemandPaging.Proofs.Faults
import DemandPaging.Proofs.Unmapping

/-!
The life of processes. A process starts without pages, and ends by losing its mappings,
with changed pages written to their files, and then the pages that are left.
-/

namespace DemandPaging

variable {arch : Architecture} {tolerated : Violation → Prop}

namespace PageDirectory

theorem isEmpty_of_route {directory : PageDirectory arch}
    (unmapped : ∀ page, directory.route page = none) : directory.isEmpty = true := by
  unfold isEmpty
  rw [Std.ExtTreeMap.isEmpty_iff]
  apply Std.ExtTreeMap.ext_getElem?
  intro page
  rw [Std.ExtTreeMap.getElem?_eq_none (route_eq_none.mp (unmapped page)),
    Std.ExtTreeMap.getElem?_empty]

end PageDirectory

namespace MappingTable

variable {table : MappingTable} {owner : ProcessId} {id : MappingId}

theorem mem_ownedBy : id ∈ table.ownedBy owner ↔
    ∃ mapping, table.get? id = some mapping ∧ mapping.owner = owner := by
  unfold ownedBy get?
  rw [Std.ExtTreeMap.mem_keys, Std.ExtTreeMap.mem_iff_isSome_getElem?,
    Std.ExtTreeMap.getElem?_filter', Option.isSome_filter, Option.any_eq_true]
  simp

theorem nodup_ownedBy (table : MappingTable) (owner : ProcessId) :
    (table.ownedBy owner).Nodup :=
  Std.ExtTreeMap.nodup_keys

end MappingTable

namespace Layout

variable {layout : Layout}

def spawn (layout : Layout) (process : ProcessId) : Layout :=
  { layout with live := Function.update layout.live process true }

theorem Sound.spawn (sound : layout.Sound tolerated) (process : ProcessId) :
    (layout.spawn process).Sound tolerated := by
  refine ⟨?_, sound.named, sound.ranges, ?_⟩
  · intro page entry found
    exact (sound.admits page entry found).congr rfl rfl
  · intro id mapping live
    change Function.update layout.live process true mapping.owner = true
    rw [Function.update_apply]
    split
    · rfl
    · exact sound.housed id mapping live

end Layout

namespace Tenants

variable {tenants : Tenants arch} {ownerOf : FrameNumber → Option UserPage}
  {process : ProcessId} {space : AddressSpace arch}

theorem spawn_layout (dead : tenants.spaces[process]? = none)
    (entries : space.entries = ∅) (directory : space.directory = {})
    (contents : FrameNumber → Page) :
    (tenants.setSpace process space).layout contents =
      (tenants.layout contents).spawn process := by
  refine Layout.ext (funext fun other => ?_) (funext fun page => ?_) (funext fun page => ?_)
    rfl rfl rfl rfl
  · change (tenants.setSpace process space).spaces.contains other =
      Function.update tenants.spaces.contains process true other
    rw [← Std.ExtTreeMap.isSome_getElem?_eq_contains, setSpace_spaces, Function.update_apply]
    split
    · rfl
    · exact Std.ExtTreeMap.isSome_getElem?_eq_contains
  · change (tenants.setSpace process space).entryAt page = tenants.entryAt page
    unfold entryAt
    rw [setSpace_spaces]
    split
    · rename_i own
      rw [own, dead, Option.bind_some, entries]
      exact Std.ExtTreeMap.getElem?_empty
    · rfl
  · change (tenants.setSpace process space).dirtyAt page = tenants.dirtyAt page
    unfold dirtyAt
    rw [setSpace_spaces]
    split
    · rename_i own
      rw [own, dead, Option.any_some, directory]
      simp [PageDirectory.isDirty, PageDirectory.has]
    · rfl

theorem Consistent.spawn (consistent : tenants.Consistent tolerated ownerOf)
    (dead : tenants.spaces[process]? = none) (owner : space.owner = process)
    (entries : space.entries = ∅) (directory : space.directory = {}) :
    (tenants.setSpace process space).Consistent tolerated ownerOf := by
  have layout := spawn_layout dead entries directory
  have entryAt : (tenants.setSpace process space).entryAt = tenants.entryAt :=
    congrArg Layout.entry (layout fun _ => Page.zero)
  obtain ⟨sound, spaces, owners, swap, slots, numbered⟩ := consistent
  refine ⟨?_, ?_, ?_, swap, ?_, numbered⟩
  · intro contents
    rw [layout]
    exact (sound contents).spawn process
  · intro other another
    rw [setSpace_spaces]
    split
    · rintro ⟨⟩
      rename_i same
      refine ⟨owner.trans same.symm, fun page => ?_⟩
      rw [entries, directory, Std.ExtTreeMap.getElem?_empty]
      simp [PageDirectory.route]
    · exact spaces other another
  · rwa [entryAt]
  · rwa [entryAt]

end Tenants

namespace Vm

variable {vm : Vm arch} {process : ProcessId} {space placed : AddressSpace arch}
  {page : PageNumber} {entry : PageEntry}

theorem createProcess_satisfies (consistent : vm.Consistent tolerated) (process : ProcessId) :
    (vm.createProcess process).Satisfies tolerated fun (result, after) =>
      match result with
      | .error _ => after = vm
      | .ok () => after.stack = vm.stack ∧ after.Consistent tolerated ∧
          vm.layout.live process = false ∧ after.layout = vm.layout.spawn process := by
  unfold createProcess
  split
  · exact .pure rfl
  · rename_i new
    rw [Bool.not_eq_true] at new
    have dead := NumberMap.contains_eq_false.mp new
    refine .bind .log fun _ _ => ?_
    refine .pure ⟨rfl, ⟨consistent.frames, ?_⟩, new, ?_⟩
    · exact consistent.tenants.spawn dead rfl rfl rfl
    · exact Tenants.spawn_layout dead rfl rfl vm.frames.pool.page

theorem installPage_satisfies (consistent : vm.Consistent tolerated)
    (process : ProcessId) (address : VirtualAddress) (writable : Bool) :
    (vm.installPage process address writable).Satisfies tolerated fun (result, after) =>
      after.stack = vm.stack ∧ after.Consistent tolerated ∧
        match result with
        | .error _ => Relation.ReflTransGen Shift vm.layout after.layout
        | .ok frame => vm.layout.resident (process, address.page) = false ∧
            ∃ middle, Relation.ReflTransGen Shift vm.layout middle ∧
              Arrival (process, address.page) frame middle after.layout := by
  unfold installPage
  split
  · exact .pure ⟨rfl, consistent, .refl⟩
  · dsimp only
    cases found : vm.spaces[process]? with
    | none => exact .pure ⟨rfl, consistent, .refl⟩
    | some space =>
        dsimp only
        split
        · exact .pure ⟨rfl, consistent, .refl⟩
        · rename_i unlisted
          rw [Bool.not_eq_true, NumberMap.contains_eq_false] at unlisted
          have new : vm.layout.Sources (process, address.page) .zero :=
            (Tenants.entryAt_of_space found address.page).trans unlisted
          refine .bind (acquireFrame_satisfies consistent rfl process address.page) ?_
          rintro ⟨acquired, held⟩ ⟨stack, path, outcome⟩
          cases acquired with
          | error cause => exact .pure ⟨stack, outcome, path⟩
          | ok frame =>
              obtain ⟨holds, zeroed⟩ := outcome
              obtain ⟨space, found⟩ := Tenants.live_iff.mp
                ((congrFun (Layout.live_of_moves path) process).trans
                  (Tenants.live_iff.mpr ⟨space, found⟩))
              have sources := new.moves path
              have absent : space.entries[address.page]? = none :=
                (Tenants.entryAt_of_space found address.page).symm.trans sources
              have supplies : held.Supplies tolerated frame process address.page held.swap
                  held.frames Page.zero { backing := .frame frame, writable, mapping := none } := by
                refine ⟨?_, holds.tenants.swap, rfl, slots_of_elsewhere ?_, rfl,
                  .fresh held.layout writable holds.idle sources⟩
                · rw [← zeroed rfl]
                  exact FrameTable.Fills.refl held.frames frame
                · rintro slot ⟨present, listed, _⟩
                  exact absurd (sources.symm.trans listed) (by simp)
              dsimp only
              rw [found]
              refine .bind (.lift (AddressSpace.installFrame_satisfies (holds.coherent found)
                absent holds.start writable)) ?_
              rintro ⟨installed, placed⟩ ⟨rfl, places⟩
              refine .bind (.lift (.require rfl)) fun _ _ => ?_
              refine .bind (.lift (holds.mark_satisfies supplies.fills)) ?_
              rintro ⟨_, marked⟩ ⟨settled, pool, owners⟩
              obtain ⟨consistent', layout⟩ :=
                holds.enter sources supplies settled pool owners found places
              refine .pure ⟨stack, consistent', Layout.resident_eq_false.mpr new.elsewhere,
                held.layout, path, ?_⟩
              rw [show Vm.layout _ = _ from layout]
              exact supplies.arrival

/-- While an address space is destroyed: the listed entries are left. -/
structure Destroying (tolerated : Violation → Prop) (ended : MappingId → Prop) (vm : Vm arch)
    (process : ProcessId) (rest : List (PageNumber × PageEntry))
    (destruction : AddressSpace.Destruction arch) (space : AddressSpace arch) : Prop where
  directory : space.directory = destruction.directory
  entries : ∀ page entry, space.entries[page]? = some entry ↔ (page, entry) ∈ rest
  distinct : rest.Pairwise fun first later => first.1 ≠ later.1
  loses : Loses tolerated ended vm (vm.during process space destruction.stores)

theorem Destroying.next {ended : MappingId → Prop} {rest : List (PageNumber × PageEntry)}
    {destruction : AddressSpace.Destruction arch}
    (destroying : Destroying tolerated ended vm process ((page, entry) :: rest) destruction space)
    (anonymous : ∀ page entry, vm.layout.entry (process, page) = some entry →
      entry.mapping = none)
    (places : space.Places page none placed) {frames : FrameTable arch} {swap : SwapTable}
    (frees : (vm.during process space destruction.stores).Frees tolerated entry.backing
      frames swap) (released : Released) :
    Destroying tolerated ended vm process rest
      { directory := placed.directory
        stores := { destruction.stores with frames, swap }
        released } placed := by
  obtain ⟨_, entries, distinct, loses⟩ := destroying
  obtain ⟨fresh, distinct⟩ := List.pairwise_cons.mp distinct
  have found := during_spaces vm process space destruction.stores
  have listed := (entries page entry).mpr List.mem_cons_self
  have unmapped : entry.mapping = none :=
    anonymous page entry (loses.fewer _ _ ((Tenants.entryAt_of_space found page).trans listed))
  have dropped := loses.consistent.loses found listed places frees ended
    (by simp [unmapped]) .refl (by simp [unmapped])
  rw [during_during] at dropped
  refine ⟨rfl, ?_, distinct, loses.trans dropped.1⟩
  intro other present
  rw [places.entries]
  split
  · rename_i same
    subst same
    refine ⟨fun h => (nomatch h), fun member => ?_⟩
    exact absurd rfl (fresh (other, present) member)
  · rename_i differs
    rw [entries, List.mem_cons, Prod.mk.injEq]
    simp [differs]

theorem Destroying.dropEntry_satisfies {unreached : Violation → Prop} {ended : MappingId → Prop}
    {rest : List (PageNumber × PageEntry)} {destruction : AddressSpace.Destruction arch}
    (destroying : Destroying unreached ended vm process ((page, entry) :: rest) destruction space)
    (anonymous : ∀ page entry, vm.layout.entry (process, page) = some entry →
      entry.mapping = none) :
    (destruction.dropEntry (page, entry)).Satisfies tolerated fun dropped =>
      ∃ placed, Destroying unreached ended vm process rest dropped placed := by
  obtain ⟨_, stores, released⟩ := destruction
  obtain rfl := destroying.directory
  have consistent := destroying.loses.consistent
  have found := during_spaces vm process space stores
  have listed := (destroying.entries page entry).mpr List.mem_cons_self
  have present := (Tenants.entryAt_of_space found page).trans listed
  have coherent := (consistent.tenants.spaces process space found).2
  unfold AddressSpace.Destruction.dropEntry
  cases resident : entry.backing with
  | file id =>
      have elsewhere : entry.isResident = false :=
        PageEntry.isResident_eq_false (by simp [resident])
      have frees := consistent.frees_file id
      rw [← resident] at frees
      exact .pure ⟨_, destroying.next anonymous (coherent.erase listed elsewhere) frees released⟩
  | swap slot =>
      have elsewhere : entry.isResident = false :=
        PageEntry.isResident_eq_false (by simp [resident])
      have allocated := (consistent.tenants.slots slot).mpr ⟨_, entry, present, resident⟩
      refine .bind (consistent.frees_slot allocated) ?_
      intro swap frees
      rw [← resident] at frees
      exact .pure ⟨_, destroying.next anonymous (coherent.erase listed elsewhere) frees _⟩
  | frame frame =>
      have tracked := FrameTable.mem_of_ownerOf
        ((consistent.tenants.owners frame _).mpr ⟨entry, present, resident⟩)
      refine .bind (consistent.frees_frame tracked) ?_
      intro frames frees
      rw [← resident] at frees
      exact .pure ⟨_, destroying.next anonymous (coherent.unmap page) frees _⟩

theorem Destroying.isEmpty {ended : MappingId → Prop}
    {destruction : AddressSpace.Destruction arch}
    (destroying : Destroying tolerated ended vm process [] destruction space) :
    destruction.directory.isEmpty = true ∧ ∀ page : PageNumber, space.entries[page]? = none := by
  obtain ⟨directory, entries, _, loses⟩ := destroying
  have gone : ∀ page : PageNumber, space.entries[page]? = none := by
    intro page
    cases listed : space.entries[page]? with
    | none => rfl
    | some entry => exact absurd ((entries page entry).mp listed) List.not_mem_nil
  have coherent := (loses.consistent.tenants.spaces process space
    (during_spaces vm process space destruction.stores)).2
  refine ⟨PageDirectory.isEmpty_of_route fun page => ?_, gone⟩
  rw [← directory, coherent, gone]
  rfl

theorem Consistent.destroying (consistent : vm.Consistent tolerated)
    (found : vm.spaces[process]? = some space) (ended : MappingId → Prop) :
    Destroying tolerated ended vm process space.entries.toList
      { directory := space.directory, stores := vm.stores } space := by
  refine ⟨rfl, fun page entry => Std.ExtTreeMap.mem_toList_iff_getElem?_eq_some.symm,
    NumberMap.toList_distinct space.entries, ?_⟩
  rw [during_self found]
  exact .refl consistent ended

theorem destroy_satisfies {unreached : Violation → Prop} (consistent : vm.Consistent unreached)
    (found : vm.spaces[process]? = some space)
    (anonymous : ∀ page entry, vm.layout.entry (process, page) = some entry →
      entry.mapping = none) (ended : MappingId → Prop) :
    (space.destroy vm.stores).Satisfies tolerated fun (_, stores) =>
      ∃ empty, Loses unreached ended vm (vm.during process empty stores) ∧
        ∀ page, (vm.during process empty stores).layout.entry (process, page) = none := by
  unfold AddressSpace.destroy
  refine .bind (.foldlM (fun rest destruction => ∃ placed,
    Destroying unreached ended vm process rest destruction placed)
      ⟨space, consistent.destroying found ended⟩ ?_) ?_
  · rintro ⟨page, entry⟩ rest destruction ⟨placed, destroying⟩
    exact destroying.dropEntry_satisfies anonymous
  · rintro destruction ⟨empty, destroying⟩
    obtain ⟨bare, gone⟩ := destroying.isEmpty
    refine .bind (.require bare) fun _ _ => ?_
    refine .pure ⟨empty, destroying.loses, fun page => ?_⟩
    have found := during_spaces vm process empty destruction.stores
    exact (Tenants.entryAt_of_space found page).trans (gone page)

theorem Consistent.leave (consistent : vm.Consistent tolerated)
    (empty : ∀ page, vm.layout.entry (process, page) = none)
    (unmapped : ∀ id mapping, vm.layout.mapping id = some mapping → mapping.owner ≠ process) :
    ({ vm with spaces := vm.spaces.erase process } : Vm arch).Consistent tolerated ∧
      ({ vm with spaces := vm.spaces.erase process } : Vm arch).layout =
        { vm.layout with live := Function.update vm.layout.live process false } := by
  have entryAt : ({ vm.toTenants with spaces := vm.spaces.erase process } :
      Tenants arch).entryAt = vm.toTenants.entryAt := by
    funext page
    unfold Tenants.entryAt
    rw [NumberMap.getElem?_erase]
    split
    · rename_i own
      exact (own ▸ empty page.2).symm
    · rfl
  have dirtyAt : ({ vm.toTenants with spaces := vm.spaces.erase process } :
      Tenants arch).dirtyAt = vm.toTenants.dirtyAt := by
    funext page
    unfold Tenants.dirtyAt
    rw [NumberMap.getElem?_erase]
    split
    · rename_i own
      rw [Option.any_none, own]
      cases found : vm.spaces[process]? with
      | none => rfl
      | some space =>
          have coherent := (consistent.tenants.spaces process space found).2
          have absent := (Tenants.entryAt_of_space found page.2).symm.trans (empty page.2)
          refine (PageDirectory.has_of_route_eq_none ?_ .dirty).symm
          rw [coherent, absent]
          rfl
    · rfl
  have layout : ∀ contents, ({ vm.toTenants with spaces := vm.spaces.erase process } :
      Tenants arch).layout contents = { vm.toTenants.layout contents with
        live := Function.update vm.layout.live process false } := by
    intro contents
    refine Layout.ext (funext fun other => ?_) entryAt dirtyAt rfl rfl rfl rfl
    change (vm.spaces.erase process).contains other =
      Function.update vm.spaces.contains process false other
    rw [← Std.ExtTreeMap.isSome_getElem?_eq_contains, NumberMap.getElem?_erase,
      Function.update_apply]
    split
    · rfl
    · exact Std.ExtTreeMap.isSome_getElem?_eq_contains
  obtain ⟨frames, sound, spaces, owners, swap, slots, numbered⟩ := consistent
  refine ⟨⟨frames, ?_, ?_, ?_, swap, ?_, numbered⟩, layout _⟩
  · intro contents
    have step : Shrink (fun _ => False) (vm.toTenants.layout contents) _ :=
      .leave (vm.toTenants.layout contents) process empty unmapped
    rw [layout]
    exact (sound contents).shrink step
  · intro other space found
    rw [NumberMap.getElem?_erase] at found
    split at found
    · cases found
    · exact spaces other space found
  · rwa [entryAt]
  · rwa [entryAt]

/-- A process has ended, and with it its mappings. -/
structure Exits (tolerated : Violation → Prop) (process : ProcessId) (vm after : Vm arch) :
    Prop where
  stack : after.stack = vm.stack
  loses : Loses tolerated (fun id => ∃ mapping, vm.layout.mapping id = some mapping ∧
    mapping.owner = process) vm after
  live : after.layout.live = Function.update vm.layout.live process false
  mapping : ∀ id, after.layout.mapping id =
    (vm.layout.mapping id).filter fun mapping => mapping.owner ≠ process

theorem Loses.exits {middle : Vm arch} {ids : List MappingId}
    (loses : Loses tolerated (· ∈ ids) vm middle) (stack : middle.stack = vm.stack)
    (owned : ∀ id, id ∈ ids ↔
      ∃ mapping, vm.layout.mapping id = some mapping ∧ mapping.owner = process)
    (live : middle.layout.live = vm.layout.live)
    (mappings : ∀ id, middle.layout.mapping id =
      if id ∈ ids then none else vm.layout.mapping id)
    (gone : ∀ page, middle.layout.entry (process, page) = none) :
    Exits tolerated process vm { middle with spaces := middle.spaces.erase process } := by
  have unmapped : ∀ id mapping, middle.layout.mapping id = some mapping →
      mapping.owner ≠ process := by
    intro id mapping known mine
    rw [mappings] at known
    split at known
    · cases known
    · rename_i others
      exact others ((owned id).mpr ⟨mapping, known, mine⟩)
  obtain ⟨consistent, layout⟩ := loses.consistent.leave gone unmapped
  refine ⟨stack, ⟨consistent, ?_, ?_⟩, ?_, ?_⟩
  · rw [layout]
    refine .tail (Relation.ReflTransGen.mono (fun _ _ => Shrink.mono fun id => (owned id).mp)
      _ _ loses.path) ?_
    exact .leave _ process gone unmapped
  · rw [layout]
    exact loses.fewer
  · rw [layout, ← live]
  · intro id
    rw [layout]
    refine (mappings id).trans ?_
    cases known : vm.layout.mapping id with
    | none => simp
    | some mapping =>
        have mine : id ∈ ids ↔ mapping.owner = process := by simp [owned, known]
        simp [mine, Option.filter]

theorem Unmaps.anonymous {middle : Vm arch} {ids : List MappingId}
    (unmaps : Unmaps tolerated ids vm middle)
    (owned : ∀ id, id ∈ ids ↔
      ∃ mapping, vm.layout.mapping id = some mapping ∧ mapping.owner = process) :
    ∀ page entry, middle.layout.entry (process, page) = some entry → entry.mapping = none := by
  intro page entry present
  cases named : entry.mapping with
  | none => rfl
  | some id =>
      obtain ⟨mapping, live, mine, _⟩ :=
        ((unmaps.loses.consistent.tenants.sound _).admits _ entry present).mapped id named
      change middle.layout.mapping id = some mapping at live
      rw [unmaps.mapping] at live
      split at live
      · cases live
      · rename_i others
        exact absurd ((owned id).mpr ⟨mapping, live, mine⟩) others

/-- Ending a process takes its mappings, with changed pages written to their files, and then
the pages that are left. -/
theorem exitProcess_satisfies (consistent : vm.Consistent tolerated) (process : ProcessId) :
    (vm.exitProcess process).Satisfies tolerated fun (result, after) =>
      match result with
      | .error _ => after = vm ∧ vm.layout.live process = false
      | .ok _ => Exits tolerated process vm after := by
  unfold exitProcess
  split
  · rename_i absent
    exact .pure ⟨rfl, (Bool.not_eq_true' _).mp absent⟩
  · rename_i alive
    rw [Bool.not_eq_true, Bool.not_eq_false'] at alive
    have owned : ∀ id, id ∈ vm.mappings.ownedBy process ↔
        ∃ mapping, vm.layout.mapping id = some mapping ∧ mapping.owner = process :=
      fun id => MappingTable.mem_ownedBy
    refine .bind (removeMappings_satisfies consistent (MappingTable.nodup_ownedBy _ _) ?_) ?_
    · intro id member
      obtain ⟨mapping, live, _⟩ := (owned id).mp member
      exact Option.isSome_iff_exists.mpr ⟨mapping, live⟩
    · rintro ⟨_, middle⟩ ⟨rfl, stack, loses, lives, mappings⟩
      have anonymous := Unmaps.anonymous ⟨stack, loses, lives, mappings⟩ owned
      obtain ⟨space, found⟩ := Tenants.live_iff.mp ((congrFun lives process).trans alive)
      dsimp only
      rw [found]
      refine .bind (.lift (destroy_satisfies loses.consistent found anonymous
        (· ∈ vm.mappings.ownedBy process))) ?_
      rintro ⟨released, stores⟩ ⟨empty, loses', gone⟩
      refine .bind .log fun _ _ => ?_
      have exits := (loses.trans loses').exits stack owned
        ((Tenants.setSpace_live found).trans lives) mappings gone
      have erased : (middle.during process empty stores).spaces.erase process =
          middle.spaces.erase process := NumberMap.erase_insert _ _ _
      rw [erased] at exits
      exact .pure exits

end Vm
end DemandPaging
