import DemandPaging.Proofs.Anchors
import DemandPaging.Proofs.Roles

/-!
Where mappings are. The table of mappings and the entries of pages agree with each other,
the pages of mappings are apart and lie between page zero and the stacks, and a number
that has named a mapping never names another one.
-/

namespace DemandPaging

variable {arch : Architecture}

namespace StackConfig

theorem region_eq_ok {config : StackConfig} {stack : StackRegion}
    (accepted : config.region arch = .ok stack) :
    stack.bottom.offset = 0 ∧ stack.bottom.value < arch.userLimit := by
  have limit : arch.userLimit % pageSize = 0 := by cases arch <;> rfl
  unfold region require at accepted
  split at accepted
  · rename_i sized
    rw [Checked.ok_bind] at accepted
    split at accepted
    · rename_i room
      unfold StackConfig.bottom Word.sub Address.new at accepted
      rw [Checked.ok_bind, if_pos (Nat.le_of_lt room), Checked.ok_bind] at accepted
      split at accepted
      · cases accepted
        unfold Address.offset
        simp only [pageSize] at *
        omega
      · cases accepted
    · cases accepted
  · cases accepted

end StackConfig

namespace StackRegion

variable {region : StackRegion} {address : VirtualAddress}

theorem contains_iff (aligned : region.bottom.offset = 0) :
    region.contains arch address = true ↔
      address.isUser arch = true ∧ region.bottomPage.value ≤ address.page.value := by
  unfold contains bottomPage Address.page
  unfold Address.offset at aligned
  rw [Bool.and_eq_true, decide_eq_true_eq, and_comm]
  refine and_congr_right fun _ => ?_
  simp only [pageSize] at aligned ⊢
  omega

end StackRegion

namespace MappingTable

/-- The later table has mappings under old numbers only where the earlier one has them. -/
structure Follows (before after : MappingTable) : Prop where
  lastId_le : before.lastId ≤ after.lastId
  known : ∀ id mapping, id.value ≤ before.lastId → after.get? id = some mapping →
    before.get? id = some mapping

theorem Follows.refl (table : MappingTable) : table.Follows table :=
  ⟨Nat.le_refl _, fun _ _ _ found => found⟩

theorem Follows.trans {before middle after : MappingTable} (first : before.Follows middle)
    (last : middle.Follows after) : before.Follows after := by
  refine ⟨Nat.le_trans first.lastId_le last.lastId_le, fun id mapping old found => ?_⟩
  exact first.known id mapping old
    (last.known id mapping (Nat.le_trans old first.lastId_le) found)

end MappingTable

theorem Tenants.Anchored.follows {tenants : Tenants arch} {bottom : PageNumber}
    {before table : MappingTable} (anchored : tenants.Anchored bottom table)
    (grows : before.Grows bottom table) : before.Follows tenants.mappings := by
  refine ⟨?_, fun id mapping old found => ?_⟩
  · rw [anchored.lastId]
    exact grows.lastId_le
  · obtain known | ⟨new, _⟩ := grows.get? (anchored.fewer id mapping found)
    · exact known
    · omega

namespace Layout

variable {layout moved : Layout}

/-- Every page of a mapping has an entry that names the mapping. -/
def Listed (layout : Layout) : Prop :=
  ∀ id mapping page, layout.mapping id = some mapping → mapping.contains page →
    ∃ writable, layout.role (mapping.owner, page) = some (writable, some id)

theorem Listed.persists (listed : layout.Listed) (persists : layout.Persists moved) :
    moved.Listed := by
  intro id mapping page live inside
  rw [persists.mapping] at live
  obtain ⟨writable, role⟩ := listed id mapping page live inside
  refine ⟨writable, (persists.roles _ ?_).trans role⟩
  rw [← role_isSome, role]
  rfl

theorem Listed.effect (listed : layout.Listed) {operation : Vm.Operation}
    (effect : Vm.Effect operation layout moved) : moved.Listed := by
  intro id mapping page live inside
  obtain before | ⟨rfl, rfl⟩ := mapping_of_effect effect live
  · obtain ⟨writable, role⟩ := listed id mapping page before inside
    have known : (layout.entry (mapping.owner, page)).isSome := by
      rw [← role_isSome, role]
      rfl
    obtain kept | ⟨_, ends⟩ := retains_of_effect effect known
    · exact ⟨writable, kept.trans role⟩
    · exact absurd (live.symm.trans (ends writable id role)) (by simp)
  · refine ⟨mapping.segment.writable, ?_⟩
    unfold role
    rw [extend_entry, if_pos ⟨rfl, inside⟩]
    rfl

end Layout

namespace Vm

variable {vm after : Vm arch}

namespace Reachable

theorem stack_config (reachable : Reachable vm) :
    ∃ config : StackConfig, config.region arch = .ok vm.stack := by
  induction reachable with
  | boot booted =>
      obtain ⟨config, _, _, _, _, _, _, _, _, _, yields⟩ := booted
      exact ⟨config, (boot_yields yields).1⟩
  | @step vm after operation answer reachable yields ih =>
      have tolerable := operation.tolerable_of_forall (fun _ => trivial) vm
      rwa [((step_satisfies reachable.consistent tolerable).of_yields yields).1]

theorem stack_eq (reachable : Reachable vm) {operation : Operation} {answer : Answer}
    (yields : (vm.step operation).Yields (answer, after)) : after.stack = vm.stack :=
  ((step_satisfies reachable.consistent
    (operation.tolerable_of_forall (fun _ => trivial) vm)).of_yields yields).1

theorem grounded (reachable : Reachable vm) :
    vm.toTenants.Grounded vm.stack.bottomPage := by
  induction reachable with
  | boot booted =>
      obtain ⟨config, _, _, _, _, _, _, _, _, _, yields⟩ := booted
      rw [(boot_yields yields).2]
      intro process space found
      simp at found
  | step reachable yields ih =>
      obtain ⟨table, _, anchored⟩ := (step_anchored ih reachable.consistent.next_unused _).of_yields yields
      rw [reachable.stack_eq yields]
      exact anchored.grounded

theorem follows_of_step (reachable : Reachable vm) {operation : Operation} {answer : Answer}
    (yields : (vm.step operation).Yields (answer, after)) :
    vm.mappings.Follows after.mappings := by
  obtain ⟨table, grows, anchored⟩ := (step_anchored reachable.grounded
    reachable.consistent.next_unused operation).of_yields yields
  exact anchored.follows grows

theorem follows_of_run (reachable : Reachable vm) {operations : List Operation}
    (ran : vm.run? operations = some after) : vm.mappings.Follows after.mappings := by
  refine (run?_induction (motive := fun now => Reachable now ∧ vm.mappings.Follows now.mappings)
    ?_ ⟨reachable, .refl _⟩ ran).2
  rintro now next operation answer ⟨reachable, follows⟩ yields
  exact ⟨.step reachable yields, follows.trans (reachable.follows_of_step yields)⟩

/-- The pages of a mapping lie between page zero and the stacks. -/
theorem clear (reachable : Reachable vm) {id : MappingId} {mapping : Mapping} {page : PageNumber}
    (live : vm.mappings.get? id = some mapping) (inside : mapping.contains page) :
    0 < page.value ∧ page.value < vm.stack.bottomPage.value := by
  induction reachable with
  | boot booted => exact absurd ((booted.empty.2 id).symm.trans live) (by simp)
  | @step vm after operation answer reachable yields ih =>
      obtain ⟨table, grows, anchored⟩ := (step_anchored reachable.grounded
        reachable.consistent.next_unused operation).of_yields yields
      rw [reachable.stack_eq yields]
      obtain known | ⟨_, clear⟩ := grows.get? (anchored.fewer id mapping live)
      · exact ih known
      · exact clear page inside

theorem listed (reachable : Reachable vm) : vm.layout.Listed := by
  induction reachable with
  | boot booted =>
      intro id mapping page live
      exact absurd ((booted.empty.2 id).symm.trans live) (by simp)
  | step reachable yields ih =>
      obtain persists | effect := persists_or_effect reachable.consistent yields
      · exact ih.persists persists
      · exact ih.effect effect

end Reachable

/-- Mappings and the entries of pages agree, and mappings stay clear of the stacks. -/
structure Placed (vm : Vm arch) : Prop where
  housed : ∀ id mapping, vm.mappings.get? id = some mapping →
    mapping.id = id ∧ vm.spaces.contains mapping.owner = true
  listed : ∀ id mapping page, vm.mappings.get? id = some mapping → mapping.contains page →
    ∃ entry, vm.entryAt (mapping.owner, page) = some entry ∧ entry.mapping = some id
  named : ∀ process page entry id, vm.entryAt (process, page) = some entry →
    entry.mapping = some id → ∃ mapping, vm.mappings.get? id = some mapping ∧
      mapping.owner = process ∧ mapping.contains page
  filed : ∀ process page entry id, vm.entryAt (process, page) = some entry →
    entry.backing = .file id → entry.mapping = some id
  swapped : ∀ process page entry slot id mapping, vm.entryAt (process, page) = some entry →
    entry.backing = .swap slot → entry.mapping = some id →
      vm.mappings.get? id = some mapping → mapping.evictsToFile page = .ok false
  apart : ∀ id other mapping another page, vm.mappings.get? id = some mapping →
    vm.mappings.get? other = some another → mapping.owner = another.owner →
      mapping.contains page → another.contains page → id = other
  clear : ∀ id mapping page, vm.mappings.get? id = some mapping → mapping.contains page →
    0 < page.value ∧ page.value < vm.stack.bottomPage.value
  /-- Addresses and pages agree on what the stack region is. -/
  region : ∀ address : VirtualAddress, vm.stack.contains arch address = true ↔
    address.isUser arch = true ∧ vm.stack.bottomPage.value ≤ address.page.value
  unfiled : ∀ process address entry id, vm.stack.contains arch address = true →
    vm.entry? process address = some entry → entry.backing ≠ .file id

theorem Reachable.placement (reachable : Reachable vm) : vm.Placed := by
  have consistent := reachable.consistent
  have sound : vm.layout.Sound fun _ => True := consistent.tenants.sound vm.frames.pool.page
  have listed : ∀ id mapping page, vm.mappings.get? id = some mapping →
      mapping.contains page → ∃ entry, vm.entryAt (mapping.owner, page) = some entry ∧
        entry.mapping = some id := by
    intro id mapping page live inside
    obtain ⟨writable, role⟩ := reachable.listed id mapping page live inside
    obtain ⟨entry, found, _, belongs⟩ := Layout.role_eq_some role
    exact ⟨entry, found, belongs⟩
  have filed : ∀ process page entry id, vm.entryAt (process, page) = some entry →
      entry.backing = .file id → entry.mapping = some id :=
    fun process page entry id found => (sound.admits (process, page) entry found).filed id
  have region : ∀ address : VirtualAddress, vm.stack.contains arch address = true ↔
      address.isUser arch = true ∧ vm.stack.bottomPage.value ≤ address.page.value := by
    obtain ⟨config, accepted⟩ := reachable.stack_config
    exact fun address => StackRegion.contains_iff (StackConfig.region_eq_ok accepted).1
  have named : ∀ process page entry id, vm.entryAt (process, page) = some entry →
      entry.mapping = some id → ∃ mapping, vm.mappings.get? id = some mapping ∧
        mapping.owner = process ∧ mapping.contains page := by
    intro process page entry id found belongs
    obtain ⟨mapping, live, owner, inside, _⟩ :=
      (sound.admits (process, page) entry found).mapped id belongs
    exact ⟨mapping, live, owner, inside⟩
  refine ⟨fun id mapping live => ⟨sound.named id mapping live, sound.housed id mapping live⟩,
    listed, named, filed, ?_, ?_, fun id mapping page => reachable.clear, region, ?_⟩
  · intro process page entry slot id mapping found source belongs live
    exact (sound.admits (process, page) entry found).kept slot id mapping source belongs live
  · intro id other mapping another page live live' same inside inside'
    -- the one entry of the page names both
    obtain ⟨entry, found, belongs⟩ := listed id mapping page live inside
    obtain ⟨entry', found', belongs'⟩ := listed other another page live' inside'
    rw [same] at found
    cases found.symm.trans found'
    exact Option.some.inj (belongs.symm.trans belongs')
  · intro process address entry id inside found source
    have found : vm.entryAt (process, address.page) = some entry := found
    obtain ⟨mapping, live, _, covers⟩ :=
      named process address.page entry id found (filed process address.page entry id found source)
    have below := (reachable.clear live covers).2
    have above := ((region address).mp inside).2
    omega

/-- In every state mappings and entries agree, and mappings are clear of the stacks. At any
later time the number of a mapping names the same mapping or none, and once it names none it
never names one again. -/
theorem Reachable.placed (reachable : Reachable vm) :
    vm.Placed ∧ ∀ operations later, vm.run? operations = some later →
      ∀ id mapping, vm.mappings.get? id = some mapping →
        (∀ other, later.mappings.get? id = some other → other = mapping) ∧
        (later.mappings.get? id = none → ∀ operations last,
          later.run? operations = some last → last.mappings.get? id = none) := by
  refine ⟨reachable.placement, fun operations later ran id mapping live => ?_⟩
  have old : id.value ≤ vm.mappings.lastId :=
    reachable.consistent.tenants.numbered id mapping live
  have follows := reachable.follows_of_run ran
  refine ⟨fun other found => ?_, fun gone operations last ran' => ?_⟩
  · have before := follows.known id other old found
    exact Option.some.inj (before.symm.trans live)
  · have follows' := (reachable.run ran).follows_of_run ran'
    cases found : last.mappings.get? id with
    | none => rfl
    | some other =>
        have before := follows'.known id other (Nat.le_trans old follows.lastId_le) found
        exact absurd (gone.symm.trans before) (by simp)

/-- Of a mapping's two pages, evicted one after the other, the file keeps the first one and a
slot the second one. -/
theorem placed_of_evictions : ∃ vm : Vm .scaleModel, Reachable vm ∧ vm.Placed ∧
    vm.mappings.get? ⟨1⟩ =
      some ⟨⟨1⟩, ⟨1⟩, .wholeFile ⟨0⟩ 3 ⟨0x1000⟩ 5000⟩ ∧
    vm.entryAt (⟨1⟩, ⟨1⟩) = some ⟨.file ⟨1⟩, true, some ⟨1⟩⟩ ∧
    vm.entryAt (⟨1⟩, ⟨2⟩) = some ⟨.swap ⟨0⟩, true, some ⟨1⟩⟩ := by
  have evicted : (oneFrame.run? [.createProcess ⟨1⟩, .createMapping ⟨1⟩ ⟨0⟩ ⟨0x1000⟩ 5000,
      .copyFromUser ⟨1⟩ ⟨0x1000⟩ #[0] ⟨0⟩, .copyToUser ⟨1⟩ ⟨0x2000⟩ #[8] ⟨0⟩,
      .installPage ⟨1⟩ ⟨0x3000⟩ true]).any (fun vm =>
        vm.mappings.get? ⟨1⟩ = some ⟨⟨1⟩, ⟨1⟩, .wholeFile ⟨0⟩ 3 ⟨0x1000⟩ 5000⟩ ∧
        vm.entryAt (⟨1⟩, ⟨1⟩) = some ⟨.file ⟨1⟩, true, some ⟨1⟩⟩ ∧
        vm.entryAt (⟨1⟩, ⟨2⟩) = some ⟨.swap ⟨0⟩, true, some ⟨1⟩⟩) = true := by
    decide +kernel
  obtain ⟨vm, ran, found⟩ := (Option.any_eq_true _ _).mp evicted
  have reachable := (Reachable.boot oneFrame_booted).run ran
  exact ⟨vm, reachable, reachable.placed.1, of_decide_eq_true found⟩

end Vm
end DemandPaging
