import DemandPaging.Proofs.Mappings
import DemandPaging.Vm.Operation

/-!
What stays fixed while pages move. Every address space keeps the bottom of its stack
region, mappings only go, and their numbers are not given out again: the one operation that
adds a mapping gives it the next number and pages that lie between page zero and the
stacks.
-/

namespace DemandPaging

variable {arch : Architecture} {bottom : PageNumber} {table : MappingTable}

namespace MappingTable

/-- The table is the one before, or the one before with a new mapping that lies above page
zero and below `bottom`. -/
inductive Grows (bottom : PageNumber) (before : MappingTable) : MappingTable → Prop
  | same : Grows bottom before before
  | adds (owner : ProcessId) (segment : Segment)
      (clear : ∀ page, (before.upcoming owner segment).contains page →
        0 < page.value ∧ page.value < bottom.value) :
      Grows bottom before {
        mappings := before.mappings.insert ⟨before.lastId + 1⟩ (before.upcoming owner segment)
        lastId := before.lastId + 1 }

theorem Grows.get? {before : MappingTable} (grows : before.Grows bottom table) {id : MappingId}
    {mapping : Mapping} (found : table.get? id = some mapping) :
    before.get? id = some mapping ∨ id.value = before.lastId + 1 ∧
      ∀ page, mapping.contains page → 0 < page.value ∧ page.value < bottom.value := by
  cases grows with
  | same => exact .inl found
  | adds owner segment clear =>
      unfold MappingTable.get? at found
      rw [NumberMap.getElem?_insert] at found
      split at found
      · rename_i new
        cases found
        exact .inr ⟨congrArg Number.value new, clear⟩
      · exact .inl found

theorem Grows.lastId_le {before : MappingTable} (grows : before.Grows bottom table) :
    before.lastId ≤ table.lastId := by
  cases grows with
  | same => exact Nat.le_refl _
  | adds owner segment clear => exact Nat.le_succ _

end MappingTable

namespace AddressSpace

variable {space : AddressSpace arch} {page : PageNumber} {frame : FrameNumber}

theorem evictToFile_bottom :
    (space.evictToFile page).Satisfies (fun _ => True) fun (_, placed) =>
      placed.stackBottom = space.stackBottom := by
  unfold evictToFile
  refine .bind .any ?_
  rintro ⟨frame, entry⟩ _
  dsimp only
  split
  · trivial
  · exact .pure rfl

theorem evictToSwap_bottom {slot : SwapSlot} :
    (space.evictToSwap page slot).Satisfies (fun _ => True) fun (_, placed) =>
      placed.stackBottom = space.stackBottom := by
  unfold evictToSwap
  refine .bind .any ?_
  rintro ⟨frame, entry⟩ _
  exact .pure rfl

theorem installFrame_bottom {writable : Bool} :
    (space.installFrame page frame writable).Satisfies (fun _ => True) fun (_, placed) =>
      placed.stackBottom = space.stackBottom := by
  unfold installFrame
  split
  · exact .pure rfl
  · exact .bind .any fun _ _ => .pure rfl

theorem faultIn_bottom :
    (space.faultIn page frame).Satisfies (fun _ => True) fun placed =>
      placed.stackBottom = space.stackBottom := by
  unfold faultIn
  split
  · trivial
  · exact .bind .any fun _ _ => .bind .any fun _ _ => .pure rfl

theorem uninstall_bottom {stores : Stores arch} {mapping : Mapping} :
    (space.uninstall stores mapping page).Satisfies (fun _ => True) fun (_, placed, _) =>
      placed.stackBottom = space.stackBottom := by
  unfold uninstall
  split
  · exact .pure rfl
  · split
    · exact .pure rfl
    · dsimp only
      split
      · exact .pure rfl
      · exact .bind (.lift .any) fun _ _ => .pure rfl
      · exact .bind .any fun _ _ => .bind (.lift .any) fun _ _ => .pure rfl

end AddressSpace

namespace Tenants

variable {tenants : Tenants arch} {process : ProcessId} {space : AddressSpace arch}

/-- The stacks of all processes begin at the same page. -/
def Grounded (bottom : PageNumber) (tenants : Tenants arch) : Prop :=
  ∀ (process : ProcessId) (space : AddressSpace arch),
    tenants.spaces[process]? = some space → space.stackBottom = bottom

/-- The stacks begin at `bottom`, and the mappings are from this table. -/
structure Anchored (bottom : PageNumber) (table : MappingTable) (tenants : Tenants arch) :
    Prop where
  grounded : tenants.Grounded bottom
  lastId : tenants.mappings.lastId = table.lastId
  fewer : ∀ id mapping, tenants.mappings.get? id = some mapping →
    table.get? id = some mapping

namespace Anchored

theorem setSpace (anchored : tenants.Anchored bottom table)
    (same : space.stackBottom = bottom) :
    (tenants.setSpace process space).Anchored bottom table := by
  refine ⟨?_, anchored.lastId, anchored.fewer⟩
  intro other another found
  rw [setSpace_spaces] at found
  split at found
  · cases found
    exact same
  · exact anchored.grounded other another found

theorem restore (anchored : tenants.Anchored bottom table) (swap : SwapTable)
    (files : FileStore) : ({ tenants with swap, files } : Tenants arch).Anchored bottom table :=
  ⟨anchored.grounded, anchored.lastId, anchored.fewer⟩

theorem erase (anchored : tenants.Anchored bottom table) (id : MappingId) :
    ({ tenants with mappings := tenants.mappings.erase id } : Tenants arch).Anchored bottom
      table := by
  refine ⟨anchored.grounded, anchored.lastId, fun other mapping found => ?_⟩
  change (tenants.mappings.mappings.erase id)[other]? = some mapping at found
  rw [NumberMap.getElem?_erase] at found
  split at found
  · cases found
  · exact anchored.fewer other mapping found

theorem testAndClearAccessed (anchored : tenants.Anchored bottom table) (owner : ProcessId)
    (page : PageNumber) :
    (tenants.testAndClearAccessed owner page).2.Anchored bottom table := by
  unfold Tenants.testAndClearAccessed
  split
  · exact anchored
  · rename_i space found
    exact anchored.setSpace (anchored.grounded owner space found)

theorem evictToFile_satisfies (anchored : tenants.Anchored bottom table)
    (found : tenants.spaces[process]? = some space) (mapping : Mapping) (page : PageNumber)
    (contents : Page) :
    (tenants.evictToFile process space mapping page contents).Satisfies (fun _ => True)
      fun (_, moved) => moved.Anchored bottom table := by
  unfold Tenants.evictToFile
  dsimp only
  split
  all_goals
    refine .bind .any ?_
    rintro ⟨result, files⟩ _
    have stored := anchored.restore tenants.swap files
    cases result with
    | error cause => exact .pure stored
    | ok _ =>
        refine .bind (.lift AddressSpace.evictToFile_bottom) ?_
        rintro ⟨_, placed⟩ same
        exact .pure (stored.setSpace (same.trans (anchored.grounded process space found)))

theorem evictToSwap_satisfies (anchored : tenants.Anchored bottom table)
    (found : tenants.spaces[process]? = some space) (page : PageNumber) (contents : Page) :
    (tenants.evictToSwap process space page contents).Satisfies (fun _ => True)
      fun (_, moved) => moved.Anchored bottom table := by
  unfold Tenants.evictToSwap
  refine .bind .any ?_
  rintro ⟨result, swap⟩ _
  have stored := anchored.restore swap tenants.files
  cases result with
  | error cause => exact .pure stored
  | ok slot =>
      refine .bind (.lift AddressSpace.evictToSwap_bottom) ?_
      rintro ⟨_, placed⟩ same
      exact .pure (stored.setSpace (same.trans (anchored.grounded process space found)))

theorem evict_satisfies (anchored : tenants.Anchored bottom table) (owner : ProcessId)
    (page : PageNumber) (contents : Page) :
    (tenants.evict owner page contents).Satisfies (fun _ => True) fun (_, moved) =>
      moved.Anchored bottom table := by
  unfold Tenants.evict
  split
  · trivial
  · rename_i space found
    split
    · exact anchored.evictToSwap_satisfies found page contents
    · rename_i mapping _
      refine .bind (.lift .any) fun filed _ => ?_
      split
      · exact anchored.evictToFile_satisfies found mapping page contents
      · exact anchored.evictToSwap_satisfies found page contents

end Anchored
end Tenants

namespace Vm

variable {vm : Vm arch} {process : ProcessId}

theorem acquireFrame_anchored (anchored : vm.toTenants.Anchored bottom table)
    (request : FrameRequest) (process : ProcessId) (page : PageNumber) :
    (vm.acquireFrame request process page).Satisfies (fun _ => True) fun (_, after) =>
      after.toTenants.Anchored bottom table := by
  unfold acquireFrame
  refine .bind (FrameTable.acquire_keeps
    (fun (tenants : Tenants arch) owner page (anchored : tenants.Anchored bottom table) =>
      anchored.testAndClearAccessed owner page)
    (fun _ owner page contents anchored => .mono (anchored.evict_satisfies owner page contents)
      fun _ moved => ⟨moved, fun _ _ => trivial⟩)
    (fun _ _ => trivial) request process page anchored) ?_
  rintro ⟨result, frames, tenants⟩ ⟨moved, _⟩
  exact .pure moved

theorem populate_anchored (anchored : vm.toTenants.Anchored bottom table) (frame : FrameNumber)
    (page : PageNumber) (source : PageSource) :
    (vm.populate frame page source).Satisfies (fun _ => True) fun (_, after) =>
      after.toTenants.Anchored bottom table := by
  cases source with
  | zero => exact .pure anchored
  | swap slot =>
      refine .bind (.lift .any) fun contents _ => ?_
      refine .bind .any ?_
      rintro ⟨result, contents, swap⟩ _
      refine .bind (.lift .any) fun frames _ => ?_
      exact .pure (anchored.restore swap vm.files)
  | file id =>
      unfold populate
      dsimp only
      split
      · trivial
      · exact .bind (.lift .any) fun _ _ => .bind (.lift .any) fun _ _ =>
          .bind (.lift .any) fun _ _ => .pure anchored

theorem settle_bottom (space : AddressSpace arch) (page : PageNumber) (frame : FrameNumber)
    (source : PageSource) :
    (settle space page frame source).Satisfies (fun _ => True) fun placed =>
      placed.stackBottom = space.stackBottom := by
  cases source with
  | zero =>
      refine .bind AddressSpace.installFrame_bottom ?_
      rintro ⟨installed, placed⟩ same
      exact .bind .any fun _ _ => .pure same
  | swap | file => exact AddressSpace.faultIn_bottom

theorem bringIn_anchored (anchored : vm.toTenants.Anchored bottom table) (process : ProcessId)
    (page : PageNumber) (source : PageSource) :
    (vm.bringIn process page source).Satisfies (fun _ => True) fun (_, after) =>
      after.toTenants.Anchored bottom table := by
  unfold bringIn
  refine .bind (acquireFrame_anchored anchored _ process page) ?_
  rintro ⟨acquired, held⟩ anchored
  cases acquired with
  | error cause => exact .pure anchored
  | ok frame =>
      refine .bind (populate_anchored anchored frame page source) ?_
      rintro ⟨populated, filled⟩ anchored
      cases populated with
      | error cause => exact .bind (.lift .any) fun _ _ => .pure anchored
      | ok _ =>
          refine .bind (.lift .any) ?_
          rintro ⟨_, frames⟩ _
          dsimp only
          split
          · trivial
          · rename_i space found
            refine .bind (.lift (settle_bottom space page frame source)) fun placed same => ?_
            exact .pure (anchored.setSpace (same.trans (anchored.grounded process space found)))

theorem resolveFault_anchored (anchored : vm.toTenants.Anchored bottom table)
    (process : ProcessId) (fault : PageFault) :
    (vm.resolveFault process fault).Satisfies (fun _ => True) fun (_, after) =>
      after.toTenants.Anchored bottom table := by
  unfold resolveFault
  refine .bind (.lift .any) fun decided _ => ?_
  cases decided with
  | error cause => exact .pure anchored
  | ok source =>
      refine .bind .log fun _ _ => ?_
      refine .bind (bringIn_anchored anchored process fault.address.page source) ?_
      rintro ⟨result, after⟩ anchored
      exact .pure anchored

theorem handleFault_anchored (anchored : vm.toTenants.Anchored bottom table)
    (process : ProcessId) (fault : PageFault) :
    (vm.handleFault process fault).Satisfies (fun _ => True) fun (_, after) =>
      after.toTenants.Anchored bottom table := by
  unfold handleFault
  refine .bind (resolveFault_anchored anchored process fault) ?_
  rintro ⟨result, after⟩ anchored
  cases result with
  | error cause => exact .bind .log fun _ _ => .pure anchored
  | ok frame => exact .pure anchored

theorem access?_anchored {after : Vm arch} {frame : FrameNumber} {page : PageNumber}
    {write : Bool} (anchored : vm.toTenants.Anchored bottom table)
    (granted : vm.access? process page write = some (frame, after)) :
    after.toTenants.Anchored bottom table := by
  unfold access? at granted
  obtain ⟨space, found, granted⟩ := Option.bind_eq_some_iff.mp granted
  obtain ⟨_, _, granted⟩ := Option.bind_eq_some_iff.mp granted
  cases granted
  exact anchored.setSpace (anchored.grounded process space found)

theorem userFrame_anchored (anchored : vm.toTenants.Anchored bottom table)
    (process : ProcessId) (address : VirtualAddress) (write : Bool)
    (stackPointer : VirtualAddress) :
    (vm.userFrame process address write stackPointer).Satisfies (fun _ => True)
      fun (_, after) => after.toTenants.Anchored bottom table := by
  unfold userFrame
  split
  · exact .pure anchored
  · dsimp only
    split
    · rename_i granted
      exact .pure (access?_anchored anchored granted)
    · refine .bind (resolveFault_anchored anchored process _) ?_
      rintro ⟨resolved, after⟩ anchored
      cases resolved with
      | error cause => exact .pure anchored
      | ok frame =>
          dsimp only
          split
          · rename_i granted
            exact .pure (access?_anchored anchored granted)
          · exact .pure anchored

theorem storePiece_anchored (anchored : vm.toTenants.Anchored bottom table)
    (process : ProcessId) (piece : RangePiece) (source : Bytes) (stackPointer : VirtualAddress) :
    (vm.storePiece process piece source stackPointer).Satisfies (fun _ => True)
      fun (_, after) => after.toTenants.Anchored bottom table := by
  refine .bind (userFrame_anchored anchored process piece.address true stackPointer) ?_
  rintro ⟨result, after⟩ anchored
  cases result with
  | error cause => exact .pure anchored
  | ok frame => exact .bind (.lift .any) fun frames _ => .pure anchored

theorem fetchPiece_anchored (anchored : vm.toTenants.Anchored bottom table)
    (process : ProcessId) (piece : RangePiece) (stackPointer : VirtualAddress) :
    (vm.fetchPiece process piece stackPointer).Satisfies (fun _ => True)
      fun (_, after) => after.toTenants.Anchored bottom table := by
  refine .bind (userFrame_anchored anchored process piece.address false stackPointer) ?_
  rintro ⟨result, after⟩ anchored
  cases result with
  | error cause => exact .pure anchored
  | ok frame => exact .bind (.lift .any) fun page _ => .pure anchored

theorem writePieces_anchored (anchored : vm.toTenants.Anchored bottom table)
    (process : ProcessId) (base : VirtualAddress) (data : Bytes) (stackPointer : VirtualAddress)
    (pieces : List RangePiece) :
    (writePieces process base data stackPointer vm pieces).Satisfies (fun _ => True)
      fun (_, after) => after.toTenants.Anchored bottom table := by
  induction pieces generalizing vm with
  | nil => exact .pure anchored
  | cons piece rest ih =>
      unfold writePieces
      refine .bind (storePiece_anchored anchored process piece _ stackPointer) ?_
      rintro ⟨result, after⟩ anchored
      cases result with
      | error cause => exact .pure anchored
      | ok _ => exact ih anchored

theorem readPieces_anchored (anchored : vm.toTenants.Anchored bottom table)
    (process : ProcessId) (base : VirtualAddress) (buffer : Bytes)
    (stackPointer : VirtualAddress) (pieces : List RangePiece) :
    (readPieces process base buffer stackPointer vm pieces).Satisfies (fun _ => True)
      fun (_, _, after) => after.toTenants.Anchored bottom table := by
  induction pieces generalizing vm buffer with
  | nil => exact .pure anchored
  | cons piece rest ih =>
      unfold readPieces
      refine .bind (fetchPiece_anchored anchored process piece stackPointer) ?_
      rintro ⟨result, after⟩ anchored
      cases result with
      | error cause => exact .pure anchored
      | ok bytes => exact ih anchored _

theorem removeMapping_anchored (anchored : vm.toTenants.Anchored bottom table)
    (id : MappingId) :
    (vm.removeMapping id).Satisfies (fun _ => True) fun (_, after) =>
      after.toTenants.Anchored bottom table := by
  unfold removeMapping
  split
  · exact .pure anchored
  · rename_i mapping _
    split
    · trivial
    · rename_i space found
      refine .bind (.foldlM (fun _ removal => removal.space.stackBottom = space.stackBottom) rfl
        fun page _ removal same => ?_) fun removal same => ?_
      · refine .bind AddressSpace.uninstall_bottom ?_
        rintro ⟨removed, placed, stores⟩ kept
        exact .pure (kept.trans same)
      · refine .bind .log fun _ _ => ?_
        have stored := anchored.restore removal.stores.swap removal.stores.files
        exact .pure ((stored.setSpace
          (same.trans (anchored.grounded mapping.owner space found))).erase id)

theorem removeMappings_anchored (anchored : vm.toTenants.Anchored bottom table)
    (ids : List MappingId) :
    (vm.removeMappings ids).Satisfies (fun _ => True) fun (_, after) =>
      after.toTenants.Anchored bottom table := by
  induction ids generalizing vm with
  | nil => exact .pure anchored
  | cons id rest ih =>
      refine .bind (removeMapping_anchored anchored id) ?_
      rintro ⟨result, after⟩ anchored
      cases result with
      | error cause => exact .pure anchored
      | ok _ => exact ih anchored

theorem exitProcess_anchored (anchored : vm.toTenants.Anchored bottom table)
    (process : ProcessId) :
    (vm.exitProcess process).Satisfies (fun _ => True) fun (_, after) =>
      after.toTenants.Anchored bottom table := by
  unfold exitProcess
  split
  · exact .pure anchored
  · refine .bind (removeMappings_anchored anchored _) ?_
    rintro ⟨result, after⟩ anchored
    cases result with
    | error cause => exact .pure anchored
    | ok _ =>
        dsimp only
        split
        · exact .pure anchored
        · refine .bind (.lift .any) ?_
          rintro ⟨released, stores⟩ _
          refine .bind .log fun _ _ => .pure ⟨?_, anchored.lastId, anchored.fewer⟩
          intro other space found
          rw [NumberMap.getElem?_erase] at found
          split at found
          · cases found
          · exact anchored.grounded other space found

theorem installPage_anchored (anchored : vm.toTenants.Anchored bottom table)
    (process : ProcessId) (address : VirtualAddress) (writable : Bool) :
    (vm.installPage process address writable).Satisfies (fun _ => True) fun (_, after) =>
      after.toTenants.Anchored bottom table := by
  unfold installPage
  split
  · exact .pure anchored
  · dsimp only
    split
    · exact .pure anchored
    · split
      · exact .pure anchored
      · refine .bind (acquireFrame_anchored anchored _ process address.page) ?_
        rintro ⟨acquired, held⟩ anchored
        cases acquired with
        | error cause => exact .pure anchored
        | ok frame =>
            dsimp only
            split
            · trivial
            · rename_i space found
              refine .bind (.lift AddressSpace.installFrame_bottom) ?_
              rintro ⟨installed, placed⟩ same
              refine .bind (.lift .any) fun _ _ => .bind (.lift .any) ?_
              rintro ⟨_, frames⟩ _
              exact .pure (anchored.setSpace (same.trans (anchored.grounded process space found)))

theorem mapSegment_anchored (grounded : vm.toTenants.Grounded bottom)
    (unused : vm.mappings.get? ⟨vm.mappings.lastId + 1⟩ = none) (process : ProcessId)
    (segment : Segment) :
    (vm.mapSegment process segment).Satisfies (fun _ => True) fun (_, after) =>
      ∃ table, vm.mappings.Grows bottom table ∧ after.toTenants.Anchored bottom table := by
  have before : vm.toTenants.Anchored bottom vm.mappings :=
    ⟨grounded, rfl, fun _ _ found => found⟩
  refine .mono ((mapSegment_installs unused process segment).weaken fun _ _ => trivial) ?_
  rintro ⟨result, after⟩ outcome
  cases result with
  | error cause =>
      cases outcome
      exact ⟨vm.mappings, .same, before⟩
  | ok id =>
      obtain ⟨_, ⟨length, accepted⟩, space, installed, found, available, installing, rfl⟩ := outcome
      obtain ⟨_, nonzero, aligned, _⟩ := mappableLength_eq_ok accepted
      have clear : ∀ page, (vm.mappings.upcoming process segment).contains page →
          0 < page.value ∧ page.value < bottom.value := by
        intro page inside
        have below := (AddressSpace.isAvailable_iff.mp (available page inside)).1
        rw [grounded process space found] at below
        refine ⟨?_, below⟩
        -- the first page is not page zero, for the segment's address is aligned
        simp only [Mapping.contains, Bool.and_eq_true, decide_eq_true_eq] at inside
        refine Nat.lt_of_lt_of_le ?_ inside.1
        change 0 < segment.address.value / pageSize
        unfold Address.offset at aligned
        simp only [MappingTable.upcoming, pageSize] at nonzero aligned ⊢
        omega
      have moved : (vm.setSpace process installed).Anchored bottom vm.mappings :=
        before.setSpace (installing.stackBottom.trans (grounded process space found))
      exact ⟨_, .adds process segment clear, moved.grounded, rfl, fun _ _ found => found⟩

theorem createMapping_anchored (grounded : vm.toTenants.Grounded bottom)
    (unused : vm.mappings.get? ⟨vm.mappings.lastId + 1⟩ = none) (process : ProcessId)
    (file : FileId) (address : VirtualAddress) (length : Nat) :
    (vm.createMapping process file address length).Satisfies (fun _ => True) fun (_, after) =>
      ∃ table, vm.mappings.Grows bottom table ∧ after.toTenants.Anchored bottom table := by
  unfold createMapping
  dsimp only
  split
  · exact .pure ⟨vm.mappings, .same, grounded, rfl, fun _ _ found => found⟩
  · exact mapSegment_anchored grounded unused process _

/-- An operation adds one mapping at most, and moves the bottom of no stack. -/
theorem step_anchored (grounded : vm.toTenants.Grounded vm.stack.bottomPage)
    (unused : vm.mappings.get? ⟨vm.mappings.lastId + 1⟩ = none) (operation : Operation) :
    (vm.step operation).Satisfies (fun _ => True) fun (_, after) =>
      ∃ table, vm.mappings.Grows vm.stack.bottomPage table ∧
        after.toTenants.Anchored vm.stack.bottomPage table := by
  have anchored : vm.toTenants.Anchored vm.stack.bottomPage vm.mappings :=
    ⟨grounded, rfl, fun _ _ found => found⟩
  have unmoved : ∀ {α : Type} {run : Run (α × Vm arch)} (answer : α → Answer),
      (run.Satisfies (fun _ => True) fun (_, after) =>
        after.toTenants.Anchored vm.stack.bottomPage vm.mappings) →
      (run >>= fun (result, after) => pure (answer result, after)).Satisfies (fun _ => True)
        fun (_, after) => ∃ table, vm.mappings.Grows vm.stack.bottomPage table ∧
          after.toTenants.Anchored vm.stack.bottomPage table :=
    fun answer kept => .bind kept fun _ anchored => .pure ⟨_, .same, anchored⟩
  cases operation with
  | createProcess process =>
      refine unmoved _ ?_
      unfold createProcess
      split
      · exact .pure anchored
      · exact .bind .log fun _ _ => .pure (anchored.setSpace rfl)
  | exitProcess process => exact unmoved _ (exitProcess_anchored anchored process)
  | handleFault process fault => exact unmoved _ (handleFault_anchored anchored process fault)
  | resolveFault process fault =>
      refine .bind (resolveFault_anchored anchored process fault) ?_
      rintro ⟨result, after⟩ anchored
      cases result <;> exact .pure ⟨_, .same, anchored⟩
  | installPage process address writable =>
      exact unmoved _ (installPage_anchored anchored process address writable)
  | createMapping process file address length =>
      exact .bind (createMapping_anchored grounded unused process file address length)
        fun _ grows => .pure grows
  | mapSegment process segment =>
      exact .bind (mapSegment_anchored grounded unused process segment) fun _ grows => .pure grows
  | destroyMapping process id =>
      refine unmoved _ ?_
      unfold destroyMapping
      split
      · exact removeMapping_anchored anchored id
      · exact .pure anchored
  | copyToUser process address data stackPointer =>
      refine unmoved _ ?_
      unfold copyToUser
      split
      · exact writePieces_anchored anchored process address data stackPointer _
      · exact .pure anchored
  | copyFromUser process address buffer stackPointer =>
      have reads : (vm.copyFromUser process address buffer stackPointer).Satisfies
          (fun _ => True) fun (_, _, after) =>
            after.toTenants.Anchored vm.stack.bottomPage vm.mappings := by
        unfold copyFromUser
        split
        · exact readPieces_anchored anchored process address buffer stackPointer _
        · exact .pure anchored
      exact .bind reads fun _ anchored => .pure ⟨_, .same, anchored⟩
  | setFailingSectors reads writes => exact .pure ⟨_, .same, anchored.restore _ vm.files⟩
  | setTransferCaps file read write => exact .pure ⟨_, .same, anchored.restore vm.swap _⟩
  | replaceFile file contents => exact .pure ⟨_, .same, anchored.restore vm.swap _⟩

end Vm
end DemandPaging
