import DemandPaging.Proofs.Copies

/-!
Why accesses to user memory are refused. Once a fault has been classified, what is left to
go wrong is a want of frames or slots and transfers that fail; an access that finds its
fault resolved is carried out.
-/

namespace DemandPaging

variable {arch : Architecture} {tolerated : Violation → Prop}

namespace VmError

/-- Frames or slots are wanting, or a transfer failed. -/
def IsShortage : VmError → Prop
  | .outOfFrames | .swapFull | .io _ | .shortWrite => True
  | _ => False

end VmError

namespace VmError

/-- Slots are wanting, or a transfer failed. -/
def IsStoreFailure : VmError → Prop
  | .swapFull | .io _ | .shortWrite => True
  | _ => False

end VmError

namespace FaultError

/-- Frames or slots are wanting, or a transfer failed. -/
def IsShortage : FaultError → Prop
  | .outOfFrames | .swapFull | .io => True
  | _ => False

end FaultError

theorem VmError.IsShortage.toFaultError {cause : VmError} (short : cause.IsShortage) :
    cause.toFaultError.IsShortage := by
  cases cause <;> first | exact short.elim | trivial

theorem VmError.IsStoreFailure.isShortage {cause : VmError} (failure : cause.IsStoreFailure) :
    cause.IsShortage := by
  cases cause <;> first | exact failure.elim | trivial

theorem VmError.IsStoreFailure.toFaultError_ne {cause : VmError}
    (failure : cause.IsStoreFailure) : cause.toFaultError ≠ .outOfFrames := by
  cases cause <;> first | exact failure.elim | simp [VmError.toFaultError]

/-- A result that is an error only for certain reasons. -/
def FailsFor {α : Type} (reason : VmError → Prop) (result : Except VmError α) : Prop :=
  ∀ cause, result = .error cause → reason cause

theorem failsFor_ok {α : Type} {reason : VmError → Prop} (value : α) :
    FailsFor reason (.ok value : Except VmError α) := by
  rintro cause ⟨⟩

theorem failsFor_error {α : Type} {reason : VmError → Prop} {cause : VmError}
    (holds : reason cause) : FailsFor reason (.error cause : Except VmError α) := by
  rintro _ ⟨⟩
  exact holds

theorem SwapTable.store_failsFor (swap : SwapTable) (contents : Page) :
    (swap.store contents).Satisfies (fun _ => True) fun (result, _) => FailsFor VmError.IsStoreFailure result := by
  unfold store
  refine .bind (.lift .any) fun answer _ => ?_
  split
  · exact .pure (failsFor_error trivial)
  · refine .bind (.lift .any) fun first _ => ?_
    split
    · exact .bind (.lift .any) fun _ _ => .pure (failsFor_error trivial)
    · exact .bind .log fun _ _ => .pure (failsFor_ok _)

theorem SwapTable.load_failsFor (swap : SwapTable) (slot : SwapSlot) (dest : Page) :
    (swap.load slot dest).Satisfies (fun _ => True) fun (result, _) => FailsFor VmError.IsStoreFailure result := by
  unfold load
  refine .bind (.lift .any) fun _ _ => .bind (.lift .any) fun first _ => ?_
  split
  · exact .pure (failsFor_error trivial)
  · exact .bind (.lift .any) fun _ _ => .bind .log fun _ _ => .pure (failsFor_ok _)

theorem Mapping.writePage_failsFor (mapping : Mapping) (files : FileStore) (page : PageNumber)
    (source : Page) :
    (mapping.writePage files page source).Satisfies (fun _ => True) fun (result, _) =>
      FailsFor VmError.IsStoreFailure result := by
  unfold writePage
  split
  · exact .pure (failsFor_ok _)
  · refine .bind .any fun range _ => ?_
    dsimp only
    split
    · exact .pure (failsFor_ok _)
    · split
      · exact .pure (failsFor_error trivial)
      · exact .pure (failsFor_ok _)

namespace Tenants

variable (tenants : Tenants arch) (owner : ProcessId) (space : AddressSpace arch)
  (page : PageNumber) (contents : Page)

theorem evictToFile_failsFor (mapping : Mapping) :
    (tenants.evictToFile owner space mapping page contents).Satisfies (fun _ => True)
      fun (result, _) => FailsFor VmError.IsStoreFailure result := by
  have clean : (pure (.ok (), tenants.files) : Run (Except VmError Unit × FileStore)).Satisfies
      (fun _ => True) fun (result, _) => FailsFor VmError.IsStoreFailure result := .pure (failsFor_ok _)
  unfold evictToFile
  dsimp only
  split
  on_goal 1 =>
    refine .bind (.lift (Mapping.writePage_failsFor mapping tenants.files page contents)) ?_
  on_goal 2 => refine .bind clean ?_
  all_goals
    rintro ⟨result, files⟩ short
    cases result with
    | error cause => exact .pure short
    | ok _ => exact .bind (.lift .any) fun _ _ => .pure (failsFor_ok _)

theorem evictToSwap_failsFor :
    (tenants.evictToSwap owner space page contents).Satisfies (fun _ => True)
      fun (result, _) => FailsFor VmError.IsStoreFailure result := by
  unfold evictToSwap
  refine .bind (tenants.swap.store_failsFor contents) ?_
  rintro ⟨result, swap⟩ short
  cases result with
  | error cause => exact .pure (failsFor_error (short cause rfl))
  | ok slot => exact .bind (.lift .any) fun _ _ => .pure (failsFor_ok _)

theorem evict_failsFor :
    (tenants.evict owner page contents).Satisfies (fun _ => True) fun (result, _) =>
      FailsFor VmError.IsStoreFailure result := by
  unfold evict
  split
  · trivial
  · rename_i space _
    split
    · exact tenants.evictToSwap_failsFor owner space page contents
    · rename_i mapping _
      refine .bind (.lift .any) fun filed _ => ?_
      split
      · exact tenants.evictToFile_failsFor owner space page contents mapping
      · exact tenants.evictToSwap_failsFor owner space page contents

end Tenants

namespace Vm

variable (vm : Vm arch) (process : ProcessId)

/-- No frame is free, and none is in the ring. -/
def Frameless (vm : Vm arch) : Prop :=
  vm.frames.pool.free = [] ∧ vm.frames.hand = none

/-- Why a frame is not obtained or not filled: a store failed, or there is no frame at all. -/
def Wants (vm : Vm arch) (cause : VmError) : Prop :=
  cause.IsStoreFailure ∨ cause = .outOfFrames ∧ vm.Frameless

theorem Wants.isShortage {vm : Vm arch} {cause : VmError} (wants : vm.Wants cause) :
    cause.IsShortage := by
  obtain failure | ⟨rfl, _⟩ := wants
  · exact failure.isShortage
  · trivial

theorem Wants.frameless {vm : Vm arch} {cause : VmError} (wants : vm.Wants cause)
    (lacking : cause.toFaultError = .outOfFrames) : vm.Frameless := by
  obtain failure | ⟨_, frameless⟩ := wants
  · exact absurd lacking failure.toFaultError_ne
  · exact frameless

theorem acquireFrame_failsFor (request : FrameRequest) (page : PageNumber) :
    (vm.acquireFrame request process page).Satisfies (fun _ => True) fun (result, _) =>
      FailsFor vm.Wants result := by
  have evicts : ∀ (tenants : Tenants arch) owner page contents, True →
      (tenants.evict owner page contents).Satisfies (fun _ => True) fun (result, _) =>
        True ∧ FailsFor vm.Wants result := fun tenants owner page contents _ =>
    .mono (tenants.evict_failsFor owner page contents) fun _ failed =>
      ⟨trivial, fun cause refused => .inl (failed cause refused)⟩
  unfold acquireFrame
  refine .bind (FrameTable.acquire_keeps (fun _ _ _ _ => trivial) evicts
    (fun full stopped => .inr ⟨rfl, full, stopped⟩) request process page trivial) ?_
  rintro ⟨result, frames, tenants⟩ ⟨_, wants⟩
  exact .pure wants

theorem populate_failsFor (frame : FrameNumber) (page : PageNumber) (source : PageSource) :
    (vm.populate frame page source).Satisfies (fun _ => True) fun (result, _) =>
      FailsFor VmError.IsStoreFailure result := by
  cases source with
  | zero => exact .pure (failsFor_ok _)
  | swap slot =>
      refine .bind (.lift .any) fun contents _ => ?_
      refine .bind (vm.swap.load_failsFor slot contents) ?_
      rintro ⟨result, contents, swap⟩ failed
      exact .bind (.lift .any) fun _ _ => .pure failed
  | file id =>
      unfold populate
      dsimp only
      split
      · trivial
      · exact .bind (.lift .any) fun _ _ => .bind (.lift .any) fun _ _ =>
          .bind (.lift .any) fun _ _ => .pure (failsFor_ok _)

theorem bringIn_failsFor (page : PageNumber) (source : PageSource) :
    (vm.bringIn process page source).Satisfies (fun _ => True) fun (result, _) =>
      FailsFor vm.Wants result := by
  unfold bringIn
  refine .bind (vm.acquireFrame_failsFor process _ page) ?_
  rintro ⟨acquired, held⟩ wants
  cases acquired with
  | error cause => exact .pure wants
  | ok frame =>
      refine .bind (held.populate_failsFor frame page source) ?_
      rintro ⟨populated, filled⟩ failed
      cases populated with
      | error cause =>
          exact .bind (.lift .any) fun _ _ => .pure (failsFor_error (.inl (failed cause rfl)))
      | ok _ =>
          refine .bind (.lift .any) ?_
          rintro ⟨_, frames⟩ _
          dsimp only
          split
          · trivial
          · exact .bind (.lift .any) fun _ _ => .pure (failsFor_ok _)

theorem resolveFault_refuses (fault : PageFault) :
    (vm.resolveFault process fault).Satisfies (fun _ => True) fun (result, _) =>
      ∀ cause, result = .error cause →
        vm.classify process fault = .ok (.error cause) ∨
          cause.IsShortage ∧ (cause = .outOfFrames → vm.Frameless) := by
  unfold resolveFault
  refine .bind (.lift (.of_errors fun _ _ => trivial)) fun decided classified => ?_
  cases decided with
  | error cause =>
      refine .pure ?_
      rintro _ ⟨⟩
      exact .inl classified
  | ok source =>
      refine .bind .log fun _ _ => ?_
      refine .bind (vm.bringIn_failsFor process fault.address.page source) ?_
      rintro ⟨result, after⟩ wants
      refine .pure ?_
      cases result with
      | error cause =>
          rintro _ ⟨⟩
          have wants := wants cause rfl
          exact .inr ⟨wants.isShortage.toFaultError, wants.frameless⟩
      | ok frame => rintro _ ⟨⟩

variable {vm process} {fault : PageFault}

theorem classify_of_kernel (kernel : fault.address.isUser arch = false) :
    vm.classify process fault = .ok (.error .kernelAddress) := by
  unfold classify
  simp only [kernel]
  rfl

theorem classify_of_absent (user : fault.address.isUser arch = true)
    (absent : vm.spaces.contains process = false) :
    vm.classify process fault = .ok (.error .noSuchProcess) := by
  unfold classify
  simp only [user, NumberMap.contains_eq_false.mp absent]
  rfl

theorem classify_of_new (user : fault.address.isUser arch = true)
    (alive : vm.spaces.contains process = true) (new : vm.entry? process fault.address = none) :
    vm.classify process fault = .ok (vm.faultSource fault none) := by
  obtain ⟨space, found⟩ := Tenants.live_iff.mp alive
  have unlisted : space.entries[fault.address.page]? = none :=
    (Tenants.entryAt_of_space found fault.address.page).symm.trans new
  unfold classify
  simp [user, found, unlisted, require]

theorem classify_of_entry {entry : PageEntry}
    (user : fault.address.isUser arch = true)
    (found : vm.entry? process fault.address = some entry) :
    vm.classify process fault =
      if fault.write = true ∧ entry.writable = false then .ok (.error .permissionDenied)
      else if entry.isResident then
        .error (.faultedWhileResident fault.address.page process)
      else .ok (vm.faultSource fault (some entry)) := by
  obtain ⟨space, alive, listed⟩ := Option.bind_eq_some_iff.mp found
  unfold classify require
  simp only [user, alive, listed, Bool.not_true, Bool.false_eq_true, if_false, Option.any_some,
    Bool.and_eq_true, Bool.not_eq_true', Bool.not_eq_true]
  split
  · rfl
  · cases entry.isResident <;> rfl

theorem faultSource_error {entry : Option PageEntry} {cause : FaultError}
    (denied : vm.faultSource fault entry = .error cause) :
    cause = .beyondStack ∨ cause = .unbacked := by
  unfold faultSource at denied
  split at denied
  · split at denied
    · cases denied
      exact .inl rfl
    · split at denied <;> cases denied
      exact .inr rfl
  · split at denied <;> cases denied
    exact .inr rfl

/-- What a fault is refused for when it is classified. -/
theorem classify_error {cause : FaultError}
    (refused : vm.classify process fault = .ok (.error cause)) :
    cause = .kernelAddress ∧ fault.address.isUser arch = false ∨
      cause = .noSuchProcess ∧ vm.spaces.contains process = false ∨
      (cause = .permissionDenied ∧ fault.write = true ∧
        ∃ entry, vm.entry? process fault.address = some entry ∧ entry.writable = false) ∨
      cause = .beyondStack ∨ cause = .unbacked := by
  cases user : fault.address.isUser arch with
  | false =>
      cases (classify_of_kernel user).symm.trans refused
      exact .inl ⟨rfl, rfl⟩
  | true =>
      cases alive : vm.spaces.contains process with
      | false =>
          cases (classify_of_absent user alive).symm.trans refused
          exact .inr (.inl ⟨rfl, rfl⟩)
      | true =>
          cases found : vm.entry? process fault.address with
          | none =>
              rw [classify_of_new user alive found] at refused
              exact .inr (.inr (.inr (faultSource_error (Except.ok.inj refused))))
          | some entry =>
              rw [classify_of_entry user found] at refused
              split at refused
              · rename_i denied
                cases refused
                exact .inr (.inr (.inl ⟨rfl, denied.1, entry, rfl, denied.2⟩))
              · split at refused
                · cases refused
                · exact .inr (.inr (.inr (faultSource_error (Except.ok.inj refused))))

theorem access?_of_ungranted (consistent : vm.Consistent tolerated) {page : PageNumber}
    {write : Bool} (refused : ∀ frame, ¬vm.layout.Grants (process, page) frame write) :
    vm.access? process page write = none := by
  have spec := access?_spec consistent process page write
  cases access : vm.access? process page write with
  | none => rfl
  | some answer =>
      rw [access] at spec
      exact absurd spec.1 (refused answer.1)

theorem access?_of_grants (consistent : vm.Consistent tolerated) {page : PageNumber}
    {frame : FrameNumber} {write : Bool}
    (grants : vm.layout.Grants (process, page) frame write) :
    ∃ used, vm.access? process page write = some (frame, used) := by
  have spec := access?_spec consistent process page write
  cases access : vm.access? process page write with
  | none =>
      rw [access] at spec
      exact absurd grants (spec frame)
  | some answer =>
      obtain ⟨other, used⟩ := answer
      rw [access] at spec
      obtain ⟨⟨entry, found, resident, _⟩, _⟩ := spec
      obtain ⟨entry', found', resident', _⟩ := grants
      cases found.symm.trans found'
      cases resident.symm.trans resident'
      exact ⟨used, rfl⟩

theorem access?_of_resolved (consistent : vm.Consistent tolerated)
    (everything : ∀ violation, tolerated violation) {fault : PageFault} {frame : FrameNumber}
    {after : Vm arch} (yields : (vm.resolveFault process fault).Yields (.ok frame, after)) :
    ∃ used, after.access? process fault.address.page fault.write = some (frame, used) := by
  obtain ⟨_, consistent', ⟨_, _, entry, found, resident, permission⟩, allowed⟩ :=
    (resolveFault_satisfies consistent fun _ _ _ _ => everything _).of_yields yields
  refine access?_of_grants consistent' ⟨entry, found, resident, fun storing => ?_⟩
  rw [permission]
  exact allowed frame rfl storing

/-- A user access is refused only if the process is not there, or if it faults and the fault is
refused. -/
theorem userFrame_refuses (consistent : vm.Consistent fun _ => True) (process : ProcessId)
    (address : VirtualAddress) (write : Bool) (stackPointer : VirtualAddress) :
    (vm.userFrame process address write stackPointer).Satisfies (fun _ => True)
      fun (result, _) => ∀ cause, result = .error cause →
        vm.spaces.contains process = false ∧ cause = .noSuchProcess process ∨
          vm.access? process address.page write = none ∧ ∃ reason, cause = .fault reason ∧
            (vm.classify process { address, write, stackPointer } = .ok (.error reason) ∨
              reason.IsShortage) := by
  unfold userFrame
  split
  · rename_i absent
    refine .pure ?_
    rintro _ ⟨⟩
    exact .inl ⟨(Bool.not_eq_true' _).mp absent, rfl⟩
  · dsimp only
    cases access : vm.access? process address.page write with
    | some answer =>
        refine .pure ?_
        rintro _ ⟨⟩
    | none =>
        refine .bind (vm.resolveFault_refuses process
          { address, write, stackPointer }).yielding ?_
        rintro ⟨result, after⟩ ⟨yields, reasons⟩
        cases result with
        | error reason =>
            refine .pure ?_
            rintro _ ⟨⟩
            exact .inr ⟨rfl, reason, rfl, (reasons reason rfl).imp_right And.left⟩
        | ok frame =>
            obtain ⟨used, again⟩ := access?_of_resolved consistent (fun _ => trivial) yields
            dsimp only at again ⊢
            rw [again]
            refine .pure ?_
            rintro _ ⟨⟩

end Vm
end DemandPaging
