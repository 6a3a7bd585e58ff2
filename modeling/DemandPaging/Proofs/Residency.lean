import DemandPaging.Proofs.Placement
import DemandPaging.Proofs.Refusals

/-!
Accesses to pages that have been evicted. Whether a page that has an entry can be accessed
depends on where the page is in one respect only: a page of the stack region that is not in
a frame is refused to accesses too far below the stack pointer, although one in a frame is
not. Otherwise an access that is allowed is allowed wherever the page is.
-/

namespace DemandPaging

variable {arch : Architecture}

theorem RangePiece.ofRange_one (address : VirtualAddress) :
    ofRange address 1 = [{ address, length := 1 }] :=
  ofRange_within Nat.one_pos (Nat.mod_lt address.value (by decide))

namespace Vm

variable {vm after : Vm arch} {process : ProcessId} {address : VirtualAddress} {write : Bool}
  {stackPointer : VirtualAddress} {byte : UInt8}

/-- A copy of one byte, to user memory if it is a write and from there otherwise. -/
def copyByte (vm : Vm arch) (process : ProcessId) (address : VirtualAddress) (byte : UInt8)
    (write : Bool) (stackPointer : VirtualAddress) : Run (Except VmError Unit × Vm arch) :=
  if write then do
    let (outcome, vm) ← vm.copyToUser process address #[byte] stackPointer
    return (outcome.result, vm)
  else do
    let (outcome, _, vm) ← vm.copyFromUser process address #[byte] stackPointer
    return (outcome.result, vm)

/-- Whether an access is to the stack region and too far below the stack pointer. -/
def IsBeyond (vm : Vm arch) (address stackPointer : VirtualAddress) : Prop :=
  vm.stack.contains arch address = true ∧
    address.value < (vm.stack.lowestAccess stackPointer).value

theorem inUserSpace_one : inUserSpace arch address 1 = address.isUser arch := rfl

theorem copyByte_of_kernel (vm : Vm arch) (process : ProcessId) (byte : UInt8) (write : Bool)
    (stackPointer : VirtualAddress) (kernel : address.isUser arch = false) :
    (vm.copyByte process address byte write stackPointer).Yields
      (.error (.fault .kernelAddress), vm) := by
  have outside : inUserSpace arch address (#[byte] : Bytes).size = false :=
    inUserSpace_one.trans kernel
  unfold copyByte copyToUser copyFromUser
  rw [outside]
  cases write <;> rfl

/-- At a user address, a copy of one byte is the access to its page, and then a transfer. -/
theorem copyByte_eq (vm : Vm arch) (process : ProcessId) (byte : UInt8) (write : Bool)
    (stackPointer : VirtualAddress) (user : address.isUser arch = true) :
    ∃ transfer : FrameNumber → Vm arch → Run (Vm arch),
      vm.copyByte process address byte write stackPointer = (do
        let (result, vm) ← vm.userFrame process address write stackPointer
        match result with
        | .error cause => return (.error cause, vm)
        | .ok frame => return (.ok (), ← transfer frame vm)) := by
  have inside : inUserSpace arch address (#[byte] : Bytes).size = true :=
    inUserSpace_one.trans user
  have pieces : RangePiece.ofRange address (#[byte] : Bytes).size = [{ address, length := 1 }] :=
    RangePiece.ofRange_one address
  cases write with
  | true =>
      refine ⟨fun frame vm => do
        let start := address.value - address.value
        let frames ← vm.frames.write frame address.offset (#[byte].extract start (start + 1))
        return { vm with frames }, ?_⟩
      unfold copyByte copyToUser
      rw [if_pos rfl, if_pos inside, pieces]
      unfold writePieces storePiece
      simp only [bind_assoc]
      congr 1
      funext answer
      obtain ⟨result, used⟩ := answer
      cases result with
      | error cause => rfl
      | ok frame =>
          simp only [bind_assoc, pure_bind]
          rfl
  | false =>
      refine ⟨fun frame vm => do
        let _ ← vm.frames.read frame address.offset 1
        return vm, ?_⟩
      unfold copyByte copyFromUser
      rw [if_neg Bool.false_ne_true, if_pos inside, pieces]
      unfold readPieces fetchPiece
      simp only [bind_assoc]
      congr 1
      funext answer
      obtain ⟨result, used⟩ := answer
      cases result with
      | error cause => rfl
      | ok frame =>
          simp only [bind_assoc, pure_bind]
          rfl

theorem copyByte_error_iff (user : address.isUser arch = true) {cause : VmError} :
    (vm.copyByte process address byte write stackPointer).Yields (.error cause, after) ↔
      (vm.userFrame process address write stackPointer).Yields (.error cause, after) := by
  obtain ⟨transfer, same⟩ := copyByte_eq vm process byte write stackPointer user
  rw [same]
  constructor
  · intro yields
    obtain ⟨⟨result, used⟩, yields, ends⟩ := Run.yields_bind.mp yields
    cases result with
    | error cause =>
        cases ends
        exact yields
    | ok frame =>
        obtain ⟨last, _, ends⟩ := Run.yields_bind.mp ends
        cases ends
  · exact fun yields => Run.yields_bind.mpr ⟨_, yields, rfl⟩

theorem userFrame_of_refused (alive : vm.spaces.contains process = true)
    (faults : vm.access? process address.page write = none) {reason : FaultError}
    (refused : vm.classify process { address, write, stackPointer } = .ok (.error reason)) :
    (vm.userFrame process address write stackPointer).Yields (.error (.fault reason), vm) := by
  unfold userFrame
  simp only [alive, Bool.not_true, Bool.false_eq_true, if_false, faults]
  refine Run.yields_bind.mpr ⟨(.error reason, vm), ?_, rfl⟩
  unfold resolveFault
  exact Run.yields_bind.mpr ⟨.error reason, refused, rfl⟩

theorem copyByte_of_denied (consistent : vm.Consistent fun _ => True) (byte : UInt8)
    (stackPointer : VirtualAddress) (user : address.isUser arch = true) {entry : PageEntry}
    (found : vm.entry? process address = some entry) (stores : write = true)
    (readOnly : entry.writable = false) :
    (vm.copyByte process address byte write stackPointer).Yields
      (.error (.fault .permissionDenied), vm) := by
  obtain ⟨space, alive, listed⟩ := Option.bind_eq_some_iff.mp found
  refine (copyByte_error_iff user).mpr (userFrame_of_refused
    (Tenants.live_iff.mpr ⟨space, alive⟩) ?_ ?_)
  · refine access?_of_ungranted consistent ?_
    rintro frame ⟨entry', found', _, allowed⟩
    cases found.symm.trans found'
    exact absurd (allowed stores) (by simp [readOnly])
  · rw [classify_of_entry user found, if_pos ⟨stores, readOnly⟩]

theorem faultSource_of_elsewhere (fault : PageFault) {entry : PageEntry}
    (elsewhere : entry.isResident = false)
    (unfiled : vm.stack.contains arch fault.address = true → ∀ id, entry.backing ≠ .file id)
    (reason : FaultError) : vm.faultSource fault (some entry) = .error reason ↔
      reason = .beyondStack ∧ vm.IsBeyond fault.address fault.stackPointer := by
  unfold faultSource IsBeyond
  cases source : entry.backing with
  | frame frame => exact absurd (PageEntry.isResident_of_frame source) (by simp [elsewhere])
  | swap slot =>
      simp only [Option.map_some, source]
      split
      · rename_i inside
        split
        · rename_i below
          simp [inside, below, eq_comm]
        · rename_i above
          simp [inside, above]
      · rename_i outside
        simp [outside]
  | file id =>
      have outside : vm.stack.contains arch fault.address ≠ true :=
        fun inside => unfiled inside id source
      simp [source, outside]

/-- A run from one state to another through which a page keeps an entry. -/
inductive Stays (page : UserPage) : Vm arch → Vm arch → Prop
  | refl (vm : Vm arch) (present : (vm.entryAt page).isSome) : Stays page vm vm
  | step {vm middle after : Vm arch} {operation : Operation} {answer : Answer}
      (stays : Stays page vm middle) (yields : (middle.step operation).Yields (answer, after))
      (present : (after.entryAt page).isSome) : Stays page vm after

theorem Stays.present {page : UserPage} (stays : Stays page vm after) :
    (after.layout.entry page).isSome := by
  cases stays with
  | refl present => exact present
  | step _ _ present => exact present

theorem Stays.role {page : UserPage} (stays : Stays page vm after) (reachable : Reachable vm) :
    Reachable after ∧ after.layout.role page = vm.layout.role page := by
  induction stays with
  | refl => exact ⟨reachable, rfl⟩
  | @step middle after operation answer stays yields present ih =>
      obtain ⟨reached, same⟩ := ih
      refine ⟨.step reached yields, ?_⟩
      obtain kept | ⟨gone, _⟩ := step_retains reached.consistent yields stays.present
      · exact kept.trans same
      · have known : (after.layout.role page).isSome = true := Layout.role_isSome.trans present
        rw [gone] at known
        cases known

/-- A byte was copied while its page was in a frame, and the page has since been evicted. Then
the same copy is refused if it is to the stack region and too far below the stack pointer, and
fails otherwise only for want of frames or slots or because a transfer fails. -/
theorem Reachable.evicted_access (reachable : Reachable vm) {done : Vm arch}
    (resident : ∃ entry, vm.entry? process address = some entry ∧ entry.isResident = true)
    (copied : (vm.copyByte process address byte write stackPointer).Yields (.ok (), done))
    (stays : Stays (process, address.page) vm after)
    (evicted : ∃ entry, after.entry? process address = some entry ∧ entry.isResident = false) :
    (after.IsBeyond address stackPointer →
      (after.copyByte process address byte write stackPointer).Yields
        (.error (.fault .beyondStack), after)) ∧
    (¬after.IsBeyond address stackPointer → ∀ cause last,
      (after.copyByte process address byte write stackPointer).Yields (.error cause, last) →
        ∃ reason, cause = .fault reason ∧ reason.IsShortage) := by
  obtain ⟨before, found, _⟩ := resident
  obtain ⟨entry, present, elsewhere⟩ := evicted
  obtain ⟨reached, same⟩ := stays.role reachable
  have user : address.isUser arch = true := by
    by_contra kernel
    have refused := copyByte_of_kernel vm process byte write stackPointer
      (Bool.not_eq_true _ ▸ kernel)
    cases copied.symm.trans refused
  have allowed : write = true → entry.writable = true := by
    intro stores
    obtain ⟨entry', present', permission, _⟩ := Layout.entry_of_role same found
    cases present.symm.trans present'
    rw [permission]
    by_contra readOnly
    have denied := copyByte_of_denied reachable.consistent byte stackPointer user found stores
      (Bool.not_eq_true _ ▸ readOnly)
    cases copied.symm.trans denied
  have faults : after.access? process address.page write = none := by
    refine access?_of_ungranted reached.consistent ?_
    rintro frame ⟨entry', present', framed, _⟩
    cases present.symm.trans present'
    exact absurd (PageEntry.isResident_of_frame framed) (by simp [elsewhere])
  have classified : after.classify process { address, write, stackPointer } =
      .ok (after.faultSource { address, write, stackPointer } (some entry)) := by
    rw [classify_of_entry user present, if_neg, if_neg (by simp [elsewhere])]
    rintro ⟨stores, readOnly⟩
    exact absurd (allowed stores) (by simp [readOnly])
  have refusal := faultSource_of_elsewhere { address, write, stackPointer } elsewhere
    fun inside id => reached.placement.unfiled process address entry id inside present
  obtain ⟨space, alive, _⟩ := Option.bind_eq_some_iff.mp present
  have alive : after.spaces.contains process = true := Tenants.live_iff.mpr ⟨space, alive⟩
  refine ⟨fun beyond => ?_, fun within cause last fails => ?_⟩
  · rw [(refusal .beyondStack).mpr ⟨rfl, beyond⟩] at classified
    exact (copyByte_error_iff user).mpr (userFrame_of_refused alive faults classified)
  · obtain ⟨dead, _⟩ | ⟨_, reason, rfl, refused | short⟩ :=
      (userFrame_refuses reached.consistent process address write stackPointer).of_yields
        ((copyByte_error_iff user).mp fails) _ rfl
    · cases alive.symm.trans dead
    · rw [classified] at refused
      exact absurd ((refusal reason).mp (Except.ok.inj refused)).2 within
    · exact ⟨reason, rfl, short⟩

/-- A byte of a page below the stack region is copied, and after the page has been moved to swap
nothing but a want of something keeps it from being copied again. -/
theorem evicted_access_below_stack : ∃ vm after done : Vm .scaleModel, Reachable vm ∧
    (∃ entry, vm.entry? ⟨1⟩ ⟨0x1005⟩ = some entry ∧ entry.isResident = true) ∧
    (vm.copyByte ⟨1⟩ ⟨0x1005⟩ 7 true ⟨0xC0000000⟩).Yields (.ok (), done) ∧
    Stays (⟨1⟩, ⟨1⟩) vm after ∧
    (∃ entry, after.entry? ⟨1⟩ ⟨0x1005⟩ = some entry ∧ entry.isResident = false) ∧
    ∀ cause last, (after.copyByte ⟨1⟩ ⟨0x1005⟩ 7 true ⟨0xC0000000⟩).Yields (.error cause, last) →
      ∃ reason, cause = .fault reason ∧ reason.IsShortage := by
  have passes : (oneFrame.run? [.createProcess ⟨1⟩, .installPage ⟨1⟩ ⟨0x1000⟩ true]).any
      (fun vm => (vm.entry? ⟨1⟩ ⟨0x1005⟩).any (fun entry => entry.isResident) &&
        (vm.copyByte ⟨1⟩ ⟨0x1005⟩ 7 true ⟨0xC0000000⟩).passes (fun (result, _) =>
          result.isOk) &&
        (vm.step (.installPage ⟨1⟩ ⟨0x2000⟩ true)).passes fun (_, after) =>
          (after.entry? ⟨1⟩ ⟨0x1005⟩).any (fun entry => !entry.isResident) &&
          !after.stack.contains .scaleModel ⟨0x1005⟩) = true := by
    decide +kernel
  simp only [Option.any_eq_true _ _, Run.passes_iff, Bool.and_eq_true, Bool.not_eq_true',
    Prod.exists] at passes
  obtain ⟨vm, ran, ⟨⟨entry, present, resident⟩, result, done, copied, succeeded⟩, _, after,
    installed, ⟨entry', present', elsewhere⟩, below⟩ := passes
  have reachable := (Reachable.boot oneFrame_booted).run ran
  have stays : Stays (⟨1⟩, ⟨1⟩) vm after := by
    refine .step (.refl vm ?_) installed ?_
    · exact Option.isSome_iff_exists.mpr ⟨entry, present⟩
    · exact Option.isSome_iff_exists.mpr ⟨entry', present'⟩
  cases result with
  | error cause => cases succeeded
  | ok _ =>
      refine ⟨vm, after, done, reachable, ⟨entry, present, resident⟩, copied, stays,
        ⟨entry', present', elsewhere⟩, ?_⟩
      refine (reachable.evicted_access ⟨entry, present, resident⟩ copied stays
        ⟨entry', present', elsewhere⟩).2 ?_
      rintro ⟨inside, _⟩
      cases below.symm.trans inside

/-- A byte of a stack page can be copied far below the stack pointer while the page is in its
frame, but not any more once the page has been moved to swap. -/
theorem refused_after_eviction : ∃ vm after done last : Vm .scaleModel, Reachable vm ∧
    (∃ entry, vm.entry? ⟨1⟩ ⟨0xBFFFF000⟩ = some entry ∧ entry.isResident = true) ∧
    (vm.copyByte ⟨1⟩ ⟨0xBFFFF000⟩ 7 true ⟨0xBFFFFF00⟩).Yields (.ok (), done) ∧
    Stays (⟨1⟩, ⟨0xBFFFF⟩) vm after ∧
    (∃ entry, after.entry? ⟨1⟩ ⟨0xBFFFF000⟩ = some entry ∧ entry.isResident = false) ∧
    (after.copyByte ⟨1⟩ ⟨0xBFFFF000⟩ 7 true ⟨0xBFFFFF00⟩).Yields
      (.error (.fault .beyondStack), last) := by
  have passes : (oneFrame.run? [.createProcess ⟨1⟩, .installPage ⟨1⟩ ⟨0xBFFFF000⟩ true]).any
      (fun vm => (vm.entry? ⟨1⟩ ⟨0xBFFFF000⟩).any (fun entry => entry.isResident) &&
        (vm.copyByte ⟨1⟩ ⟨0xBFFFF000⟩ 7 true ⟨0xBFFFFF00⟩).passes (fun (result, _) =>
          result.isOk) &&
        (vm.step (.installPage ⟨1⟩ ⟨0x1000⟩ true)).passes fun (_, after) =>
          (after.entry? ⟨1⟩ ⟨0xBFFFF000⟩).any (fun entry => !entry.isResident) &&
          (after.copyByte ⟨1⟩ ⟨0xBFFFF000⟩ 7 true ⟨0xBFFFFF00⟩).passes fun (result, _) =>
            match result with
            | .error cause => cause == .fault .beyondStack
            | .ok _ => false) = true := by
    decide +kernel
  simp only [Option.any_eq_true _ _, Run.passes_iff, Bool.and_eq_true, Bool.not_eq_true',
    Prod.exists] at passes
  obtain ⟨vm, ran, ⟨⟨entry, present, resident⟩, result, done, copied, succeeded⟩, _, after,
    installed, ⟨entry', present', elsewhere⟩, answer, last, refused, cause⟩ := passes
  have reachable := (Reachable.boot oneFrame_booted).run ran
  have stays : Stays (⟨1⟩, ⟨0xBFFFF⟩) vm after := by
    refine .step (.refl vm ?_) installed ?_
    · exact Option.isSome_iff_exists.mpr ⟨entry, present⟩
    · exact Option.isSome_iff_exists.mpr ⟨entry', present'⟩
  cases result with
  | error cause => cases succeeded
  | ok _ =>
      cases answer with
      | ok _ => cases cause
      | error reason =>
          cases beq_iff_eq.mp cause
          exact ⟨vm, after, done, last, reachable, ⟨entry, present, resident⟩, copied, stays,
            ⟨entry', present', elsewhere⟩, refused⟩

end Vm
end DemandPaging
