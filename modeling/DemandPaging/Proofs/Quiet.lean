import DemandPaging.Proofs.Lockstep

/-!
Operations that copy nothing, carried out by two machines that are alike. Pages are written back
and removed, mappings and processes come and go, and the machines stay alike.
-/

namespace DemandPaging

variable {arch : Architecture} {secret : ProcessId → Prop} {hidden : FileId → Prop}

/-- The stores agree in all but bytes in frames, in swap slots and in hidden files. -/
structure Stores.Twins (hidden : FileId → Prop) (stores other : Stores arch) : Prop where
  frames : stores.frames.Twins other.frames
  swap : stores.swap.Twins other.swap
  files : stores.files.Twins hidden other.files

namespace AddressSpace

variable {space : AddressSpace arch} {stores other : Stores arch}

theorem writeBack_twins (twins : stores.Twins hidden other) {mapping : Mapping} {page : PageNumber}
    {frame : FrameNumber} (same : ¬hidden mapping.segment.file →
      other.frames.pool.page frame = stores.frames.pool.page frame) :
    (space.writeBack stores mapping page frame).Alike (FileStore.Twins hidden)
      (space.writeBack other mapping page frame) := by
  unfold writeBack
  split
  · refine .bind (.lift (twins.frames.bytes frame)) ?_
    rintro _ _ ⟨rfl, rfl⟩
    refine .bind (.lift (twins.files.writePage mapping page same)) ?_
    rintro ⟨result, files⟩ ⟨_, files'⟩ ⟨rfl, written⟩
    cases result with
    | ok _ => exact .pure written
    | error cause => exact .bind .log fun _ _ _ => .pure written
  · exact .pure twins.files

theorem uninstall_twins (twins : stores.Twins hidden other) {mapping : Mapping} {page : PageNumber}
    (same : ∀ entry frame, space.entries[page]? = some entry → entry.mapping = some mapping.id →
      entry.backing = .frame frame → ¬hidden mapping.segment.file →
        other.frames.pool.page frame = stores.frames.pool.page frame) :
    (space.uninstall stores mapping page).Alike (SameAnswer (SameAnswer (Stores.Twins hidden)))
      (space.uninstall other mapping page) := by
  unfold uninstall
  cases listed : space.entries[page]? with
  | none => exact .pure ⟨rfl, rfl, twins⟩
  | some entry =>
      dsimp only
      split
      · exact .pure ⟨rfl, rfl, twins⟩
      · rename_i belongs
        rw [not_not] at belongs
        cases resident : entry.backing with
        | file id => exact .pure ⟨rfl, rfl, twins⟩
        | swap slot =>
            refine .bind (.lift (twins.swap.release slot)) fun _ _ swap => ?_
            exact .pure ⟨rfl, rfl, twins.frames, swap, twins.files⟩
        | frame frame =>
            refine .bind (writeBack_twins twins (same entry frame listed belongs resident)) ?_
            intro _ _ files
            refine .bind (.lift (twins.frames.release frame)) fun _ _ frames => ?_
            exact .pure ⟨rfl, rfl, frames, twins.swap, files⟩

theorem destroy_twins (twins : stores.Twins hidden other) :
    (space.destroy stores).Alike (SameAnswer (Stores.Twins hidden)) (space.destroy other) := by
  unfold destroy
  refine .bind (.foldlM (fun (destruction last : Destruction arch) =>
    destruction.directory = last.directory ∧ destruction.released = last.released ∧
      destruction.stores.Twins hidden last.stores) ⟨rfl, rfl, twins⟩ ?_) ?_
  · rintro ⟨page, entry⟩ ⟨directory, stores, released⟩ ⟨_, stores', _⟩ ⟨rfl, rfl, twins⟩
    unfold Destruction.dropEntry
    dsimp only at twins ⊢
    cases entry.backing with
    | file id => exact .pure ⟨rfl, rfl, twins⟩
    | swap slot =>
        refine .bind (twins.swap.release slot) fun _ _ swap => ?_
        exact .pure ⟨rfl, rfl, twins.frames, swap, twins.files⟩
    | frame frame =>
        refine .bind (twins.frames.release frame) fun _ _ frames => ?_
        exact .pure ⟨rfl, rfl, frames, twins.swap, twins.files⟩
  · rintro ⟨directory, stores, released⟩ ⟨_, stores', _⟩ ⟨rfl, rfl, twins⟩
    exact .bind .require fun _ _ _ => .pure ⟨rfl, twins⟩

end AddressSpace

namespace Vm

variable {vm other : Vm arch} {process : ProcessId} {space : AddressSpace arch}

theorem Twins.stores (twins : vm.Twins hidden other) : vm.stores.Twins hidden other.stores :=
  ⟨twins.frames, twins.tenants.swap, twins.tenants.files⟩

theorem Twins.during (twins : vm.Twins hidden other) {stores stores' : Stores arch}
    (both : stores.Twins hidden stores') (process : ProcessId) (space : AddressSpace arch) :
    (vm.during process space stores).Twins hidden (other.during process space stores') := by
  refine ⟨twins.stack, both.frames, ?_, twins.tenants.mappings, both.swap, both.files⟩
  unfold Vm.during Vm.setStores
  dsimp only
  rw [twins.tenants.spaces]

theorem Loses.supplies {ended : MappingId → Prop} {after : Vm arch}
    (loses : Loses (fun _ => True) ended vm after) : vm.layout.Supplies after.layout :=
  Layout.supplies_of_upholds (Layout.upholds_of_shrinks loses.path)

theorem Paired.uninstall (paired : vm.Paired secret hidden other)
    (found : vm.spaces[process]? = some space) {mapping : Mapping}
    (live : vm.mappings.get? mapping.id = some mapping) (page : PageNumber) :
    (space.uninstall vm.stores mapping page).Alike
      (SameAnswer fun left right => left.1 = right.1 ∧
        (vm.during process left.1 left.2).Paired secret hidden
          (other.during process right.1 right.2))
      (space.uninstall other.stores mapping page) := by
  have found' : other.spaces[process]? = some space := by rw [paired.tenants.spaces, found]
  have live' : other.mappings.get? mapping.id = some mapping := by
    rw [paired.tenants.mappings, live]
  have same : ∀ entry frame, space.entries[page]? = some entry →
      entry.mapping = some mapping.id → entry.backing = .frame frame →
        ¬hidden mapping.segment.file →
          other.stores.frames.pool.page frame = vm.stores.frames.pool.page frame := by
    intro entry frame listed belongs resident shown
    have present : vm.layout.entry (process, page) = some entry :=
      (Tenants.entryAt_of_space found page).trans listed
    have secrecy := paired.first.tenants.hidden_iff paired.separate present belongs live
    exact paired.page_eq ⟨entry, present, resident⟩ (mt secrecy.mpr shown)
  have lost : ∀ vm : Vm arch, vm.Consistent (fun _ => True) → vm.spaces[process]? = some space →
      vm.mappings.get? mapping.id = some mapping →
        (space.uninstall vm.stores mapping page).Satisfies (fun _ => True) fun answer =>
          Loses (fun _ => True) (fun _ => True) vm (vm.during process answer.2.1 answer.2.2) := by
    intro vm consistent found live
    refine .mono (uninstall_satisfies consistent found live ?_ page) fun _ => And.left
    trivial
  refine .mono ((AddressSpace.uninstall_twins paired.stores same).and
    (lost vm paired.first found live) (lost other paired.second found' live')) ?_
  rintro ⟨removed, placed, stores⟩ ⟨_, _, stores'⟩ ⟨⟨rfl, rfl, both⟩, loses, loses'⟩
  exact ⟨rfl, rfl, paired.advance (paired.toTwins.during both process placed) loses.supplies
    loses'.supplies, loses.consistent, loses'.consistent, paired.separate⟩

/-- What is left of a mapping's pages is the same in both machines. -/
structure Removal.Paired (secret : ProcessId → Prop) (hidden : FileId → Prop) (vm other : Vm arch)
    (mapping : Mapping) (removal last : Removal arch) : Prop where
  space : removal.space = last.space
  pages : removal.pages = last.pages
  paired : (vm.during mapping.owner removal.space removal.stores).Paired secret hidden
    (other.during mapping.owner last.space last.stores)

theorem Removal.Paired.dropPage {mapping : Mapping} {removal last : Removal arch}
    (paired : removal.Paired secret hidden vm other mapping last)
    (live : vm.mappings.get? mapping.id = some mapping) (page : PageNumber) :
    (removal.dropPage mapping page).Alike (Removal.Paired secret hidden vm other mapping)
      (last.dropPage mapping page) := by
  obtain ⟨space, stores, pages⟩ := removal
  obtain ⟨_, stores', _⟩ := last
  obtain ⟨rfl, rfl, paired⟩ := paired
  refine .bind (paired.uninstall (during_spaces vm mapping.owner space stores) live page) ?_
  rintro ⟨removed, placed, stores⟩ ⟨_, _, stores'⟩ ⟨rfl, rfl, paired⟩
  rw [during_during, during_during] at paired
  exact .pure ⟨rfl, rfl, paired⟩

theorem Paired.removeMapping_twins (paired : vm.Paired secret hidden other) (id : MappingId) :
    (vm.removeMapping id).Alike (SameAnswer (Twins hidden)) (other.removeMapping id) := by
  unfold Vm.removeMapping
  rw [paired.tenants.mappings]
  cases found : vm.mappings.get? id with
  | none => exact .pure ⟨rfl, paired.toTwins⟩
  | some mapping =>
      dsimp only
      rw [paired.tenants.spaces]
      cases lives : vm.spaces[mapping.owner]? with
      | none => exact .violate _
      | some space =>
          have lives' := (congrArg (·[mapping.owner]?) paired.tenants.spaces).trans lives
          obtain rfl := (paired.first.tenants.sound fun _ => Page.zero).named id mapping found
          refine .bind (.foldlM (Removal.Paired secret hidden vm other mapping) ⟨rfl, rfl, ?_⟩
            fun page _ _ paired => paired.dropPage found page) ?_
          · rw [during_self lives, during_self lives']
            exact paired
          · rintro ⟨space, stores, pages⟩ ⟨_, stores', _⟩ ⟨rfl, rfl, paired⟩
            refine .bind .log fun _ _ _ => ?_
            refine .pure ⟨rfl, paired.stack, paired.frames, paired.tenants.spaces, ?_,
              paired.tenants.swap, paired.tenants.files⟩
            exact congrArg (MappingTable.erase · mapping.id) paired.tenants.mappings

theorem Paired.removeMapping (paired : vm.Paired secret hidden other) (id : MappingId) :
    (vm.removeMapping id).Alike (SameAnswer (Paired secret hidden)) (other.removeMapping id) := by
  have lookup : other.mappings.get? id = vm.mappings.get? id := by rw [paired.tenants.mappings]
  cases found : vm.mappings.get? id with
  | none =>
      unfold Vm.removeMapping
      simp only [lookup, found]
      exact .pure ⟨rfl, paired⟩
  | some mapping =>
      refine .mono ((paired.removeMapping_twins id).and (removeMapping_satisfies paired.first found)
        (removeMapping_satisfies paired.second (lookup.trans found))) ?_
      rintro ⟨_, after⟩ ⟨_, after'⟩ ⟨⟨rfl, twins⟩, ⟨rfl, unmaps⟩, _, unmaps'⟩
      refine ⟨rfl, paired.advance twins unmaps.loses.supplies unmaps'.loses.supplies,
        unmaps.loses.consistent, unmaps'.loses.consistent, paired.separate.fewer ?_⟩
      intro other mapping live
      have live : after.layout.mapping other = some mapping := live
      rw [unmaps.mapping] at live
      split at live
      · cases live
      · exact live

theorem Paired.removeMappings (paired : vm.Paired secret hidden other) (ids : List MappingId) :
    (vm.removeMappings ids).Alike (SameAnswer (Paired secret hidden))
      (other.removeMappings ids) := by
  induction ids generalizing vm other with
  | nil => exact .pure ⟨rfl, paired⟩
  | cons id rest ih =>
      refine .bind (paired.removeMapping id) ?_
      rintro ⟨result, after⟩ ⟨_, after'⟩ ⟨rfl, paired⟩
      cases result with
      | error cause => exact .pure ⟨rfl, paired⟩
      | ok _ => exact ih paired

theorem Paired.exitProcess_twins (paired : vm.Paired secret hidden other) (process : ProcessId) :
    (vm.exitProcess process).Alike (SameAnswer (Twins hidden)) (other.exitProcess process) := by
  unfold exitProcess
  rw [paired.tenants.spaces, paired.tenants.mappings]
  split
  · exact .pure ⟨rfl, paired.toTwins⟩
  · refine .bind (paired.removeMappings (vm.mappings.ownedBy process)) ?_
    rintro ⟨result, middle⟩ ⟨_, middle'⟩ ⟨rfl, paired⟩
    cases result with
    | error cause => exact .pure ⟨rfl, paired.toTwins⟩
    | ok _ =>
        dsimp only
        rw [paired.tenants.spaces]
        cases middle.spaces[process]? with
        | none => exact .pure ⟨rfl, paired.toTwins⟩
        | some space =>
            refine .bind (.lift (AddressSpace.destroy_twins paired.stores)) ?_
            rintro ⟨released, stores⟩ ⟨_, stores'⟩ ⟨rfl, both⟩
            refine .bind .log fun _ _ _ => ?_
            exact .pure ⟨rfl, paired.stack, both.frames, rfl, paired.tenants.mappings, both.swap,
              both.files⟩

theorem Paired.destroyMapping (paired : vm.Paired secret hidden other) (process : ProcessId)
    (id : MappingId) :
    (vm.destroyMapping process id).Alike (SameAnswer (Paired secret hidden))
      (other.destroyMapping process id) := by
  unfold Vm.destroyMapping
  rw [paired.tenants.mappings]
  split
  · exact paired.removeMapping id
  · exact .pure ⟨rfl, paired⟩

theorem Twins.createProcess (twins : vm.Twins hidden other) (process : ProcessId) :
    (vm.createProcess process).Alike (SameAnswer (Twins hidden)) (other.createProcess process) := by
  unfold Vm.createProcess
  rw [twins.tenants.spaces, twins.stack]
  split
  · exact .pure ⟨rfl, twins⟩
  · refine .bind .log fun _ _ _ => ?_
    exact .pure ⟨rfl, rfl, twins.frames, twins.tenants.setSpace process _⟩

theorem Twins.mapSegment (twins : vm.Twins hidden other) (process : ProcessId)
    (segment : Segment) :
    (vm.mapSegment process segment).Alike (SameAnswer (Twins hidden))
      (other.mapSegment process segment) := by
  unfold Vm.mapSegment
  cases mappableLength arch segment with
  | error cause => exact .pure ⟨rfl, twins⟩
  | ok length =>
      dsimp only
      rw [twins.tenants.spaces, twins.tenants.mappings]
      cases vm.spaces[process]? with
      | none => exact .pure ⟨rfl, twins⟩
      | some space =>
          dsimp only
          cases space.firstUnavailable? segment.address.page (pagesFor length) with
          | some page => exact .pure ⟨rfl, twins⟩
          | none =>
              refine .bind (.lift (.refl (vm.mappings.next process segment))) ?_
              rintro mapping _ rfl
              refine .bind (.lift (.refl (installPages space mapping))) ?_
              rintro placed _ rfl
              refine .bind .log fun _ _ _ => ?_
              refine .bind (.lift (.refl (vm.mappings.insert _))) ?_
              rintro mappings _ rfl
              have set := twins.tenants.setSpace process placed
              exact .pure ⟨rfl, twins.stack, twins.frames, set.spaces, rfl, set.swap, set.files⟩

theorem Twins.createMapping (twins : vm.Twins hidden other) (process : ProcessId) (file : FileId)
    (address : VirtualAddress) (length : Nat) :
    (vm.createMapping process file address length).Alike (SameAnswer (Twins hidden))
      (other.createMapping process file address length) := by
  unfold Vm.createMapping
  rw [(twins.tenants.files.channel file).size]
  dsimp only
  split
  · exact .pure ⟨rfl, twins⟩
  · exact twins.mapSegment process _

theorem Twins.setFile (twins : vm.Twins hidden other) (file : FileId) {channel last : FileChannel}
    (channels : channel.Twins last) (same : ¬hidden file → last = channel) :
    ({ vm with files := vm.files.set file channel } : Vm arch).Twins hidden
      { other with files := other.files.set file last } :=
  ⟨twins.stack, twins.frames, twins.tenants.spaces, twins.tenants.mappings, twins.tenants.swap,
    twins.tenants.files.set file channels same⟩

theorem Paired.handleFault_twins (paired : vm.Paired secret hidden other) (process : ProcessId)
    (fault : PageFault) :
    (vm.handleFault process fault).Alike (SameAnswer (Twins hidden))
      (other.handleFault process fault) := by
  unfold handleFault
  refine .bind (paired.resolveFault_twins process fault) ?_
  rintro ⟨result, after⟩ ⟨_, after'⟩ ⟨rfl, twins⟩
  cases result with
  | error cause => exact .bind .log fun _ _ _ => .pure ⟨rfl, twins⟩
  | ok frame => exact .pure ⟨rfl, twins⟩

/-- An operation that copies nothing to or from memory is carried out alike. -/
theorem Paired.step_twins (paired : vm.Paired secret hidden other) {operation : Operation}
    (quiet : ¬operation.IsCopy) :
    (vm.step operation).Alike (SameAnswer (Twins hidden)) (other.step operation) := by
  have twins := paired.toTwins
  cases operation with
  | createProcess process =>
      refine .bind (twins.createProcess process) ?_
      rintro ⟨result, after⟩ ⟨_, after'⟩ ⟨rfl, twins⟩
      exact .pure ⟨rfl, twins⟩
  | exitProcess process =>
      refine .bind (paired.exitProcess_twins process) ?_
      rintro ⟨result, after⟩ ⟨_, after'⟩ ⟨rfl, twins⟩
      exact .pure ⟨rfl, twins⟩
  | handleFault process fault =>
      refine .bind (paired.handleFault_twins process fault) ?_
      rintro ⟨resolved, after⟩ ⟨_, after'⟩ ⟨rfl, twins⟩
      exact .pure ⟨rfl, twins⟩
  | resolveFault process fault =>
      refine .bind (paired.resolveFault_twins process fault) ?_
      rintro ⟨result, after⟩ ⟨_, after'⟩ ⟨rfl, twins⟩
      cases result with
      | error cause => exact .pure ⟨rfl, twins⟩
      | ok frame => exact .pure ⟨rfl, twins⟩
  | installPage process address writable =>
      refine .bind (paired.installPage_twins process address writable) ?_
      rintro ⟨result, after⟩ ⟨_, after'⟩ ⟨rfl, twins⟩
      exact .pure ⟨rfl, twins⟩
  | createMapping process file address length =>
      refine .bind (twins.createMapping process file address length) ?_
      rintro ⟨result, after⟩ ⟨_, after'⟩ ⟨rfl, twins⟩
      exact .pure ⟨rfl, twins⟩
  | mapSegment process segment =>
      refine .bind (twins.mapSegment process segment) ?_
      rintro ⟨result, after⟩ ⟨_, after'⟩ ⟨rfl, twins⟩
      exact .pure ⟨rfl, twins⟩
  | destroyMapping process mapping =>
      refine .bind (paired.destroyMapping process mapping) ?_
      rintro ⟨result, after⟩ ⟨_, after'⟩ ⟨rfl, paired⟩
      exact .pure ⟨rfl, paired.toTwins⟩
  | copyToUser | copyFromUser => exact absurd trivial quiet
  | setFailingSectors reads writes =>
      exact .pure ⟨rfl, twins.stack, twins.frames, twins.tenants.spaces, twins.tenants.mappings,
        twins.tenants.swap.setFailing reads writes, twins.tenants.files⟩
  | setTransferCaps file read write =>
      have channel := twins.tenants.files.channel file
      refine .pure ⟨rfl, twins.setFile file ⟨rfl, rfl, channel.size⟩ fun shown => ?_⟩
      rw [twins.tenants.files.same file shown]
  | replaceFile file contents =>
      have channel := twins.tenants.files.channel file
      refine .pure ⟨rfl, twins.setFile file ⟨channel.readCap, channel.writeCap, rfl⟩ ?_⟩
      intro shown
      rw [twins.tenants.files.same file shown]

theorem Paired.quiet_alike (paired : vm.Paired secret hidden other) {operation : Operation}
    (quiet : ¬operation.IsCopy) :
    (vm.step operation).Alike (fun left right => SameAnswer (Alike secret hidden) left right ∧
      left.2.Consistent (fun _ => True) ∧ right.2.Consistent fun _ => True)
      (other.step operation) := by
  have keeps : ∀ vm : Vm arch, vm.Consistent (fun _ => True) →
      (vm.step operation).Satisfies (fun _ => True) fun outcome =>
        Keeps (fun _ => True) operation vm outcome.2 := by
    intro vm consistent
    exact step_satisfies consistent (operation.tolerable_of_forall (fun _ => trivial) vm)
  refine .mono ((paired.step_twins quiet).and (keeps vm paired.first)
    (keeps other paired.second)) ?_
  rintro ⟨answer, after⟩ ⟨_, after'⟩ ⟨⟨rfl, twins⟩, ⟨_, first, effect⟩, _, second, effect'⟩
  exact ⟨⟨rfl, paired.advance twins (Layout.supplies_of_effect (effect quiet))
    (Layout.supplies_of_effect (effect' quiet))⟩, first, second⟩

end Vm
end DemandPaging
