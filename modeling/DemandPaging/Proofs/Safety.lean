import DemandPaging.Proofs.Refusals
import DemandPaging.Proofs.WriteBack

/-!
No rule is broken. If the frames of the pool can be reached and the segments of mappings
fit in machine words, then the only violation that an operation can end with is that a fault
is reported on a page that is resident and allows the access. Copies report no such fault.
-/

namespace DemandPaging

variable {arch : Architecture} {tolerated : Violation → Prop}

namespace Vm

variable {vm after : Vm arch} {process : ProcessId}

/-- Of every mapping, the pages' span from its segment's offset on ends within a machine
word. -/
def Fits (vm : Vm arch) : Prop :=
  ∀ id mapping, vm.mappings.get? id = some mapping →
    mapping.segment.offset + mapping.pageCount * pageSize < wordLimit

/-- Which violations are met depends on the frames that can be reached and on the parts of files
that are found. -/
theorem Consistent.tolerate (consistent : vm.Consistent fun _ => True)
    (addressable : vm.frames.pool.Addressable tolerated)
    (ranges : ∀ id mapping page, vm.mappings.get? id = some mapping → mapping.contains page →
      ∀ violation, mapping.fileRange page = .error violation → tolerated violation) :
    vm.Consistent tolerated := by
  obtain ⟨⟨ring, wellFormed, settled⟩, sound, spaces, owners, swap, slots, numbered⟩ := consistent
  refine ⟨⟨ring, { wellFormed with addressable }, settled⟩, ?_, spaces, owners, swap, slots,
    numbered⟩
  intro contents
  exact ⟨(sound contents).admits, (sound contents).named, ranges, (sound contents).housed⟩

theorem Fits.fileRange_ne_error (fits : vm.Fits) {id : MappingId} {mapping : Mapping}
    {page : PageNumber} {violation : Violation} (live : vm.mappings.get? id = some mapping)
    (inside : mapping.contains page) : mapping.fileRange page ≠ .error violation := by
  intro failed
  have large := Mapping.wordLimit_le_of_fileRange failed inside
  have small := fits id mapping live
  simp only [Mapping.contains, Bool.and_eq_true, decide_eq_true_eq] at inside
  unfold pageSize wordLimit at *
  omega

theorem Reachable.consistent_of_fits (reachable : Reachable vm)
    (addressable : vm.frames.pool.Addressable fun _ => False) (fits : vm.Fits)
    (tolerated : Violation → Prop) : vm.Consistent tolerated := by
  refine reachable.consistent.tolerate (fun frame inside => ?_) fun _ _ _ live inside _ failed =>
    absurd failed (fits.fileRange_ne_error live inside)
  exact ⟨fun violation failed => ((addressable frame inside).1 violation failed).elim,
    fun violation failed => ((addressable frame inside).2 violation failed).elim⟩

namespace Operation

/-- The violation is that the operation reports a fault on a user page that is resident and
allows the access. -/
def Spurious (vm : Vm arch) (violation : Violation) : Operation → Prop
  | .handleFault process fault | .resolveFault process fault =>
    violation = .faultedWhileResident fault.address.page process ∧
      fault.address.isUser arch = true ∧
      ∃ entry, vm.entry? process fault.address = some entry ∧ entry.isResident = true ∧
        (fault.write = true → entry.writable = true)
  | _ => False

end Operation

theorem resolveFault_of_resident {fault : PageFault} {entry : PageEntry}
    (user : fault.address.isUser arch = true)
    (found : vm.entry? process fault.address = some entry) (resident : entry.isResident = true)
    (allowed : fault.write = true → entry.writable = true) :
    (vm.resolveFault process fault).outcome =
      .error (.faultedWhileResident fault.address.page process) := by
  have broken : vm.classify process fault =
      .error (.faultedWhileResident fault.address.page process) := by
    rw [classify_of_entry user found, if_neg, if_pos resident]
    rintro ⟨stores, readOnly⟩
    exact absurd (allowed stores) (by simp [readOnly])
  unfold resolveFault
  rw [Run.outcome_bind, Run.outcome_lift, broken]
  rfl

theorem resolveFault_of_kernel {fault : PageFault} (kernel : fault.address.isUser arch = false) :
    (vm.resolveFault process fault).Yields (.error .kernelAddress, vm) := by
  unfold resolveFault Run.Yields
  rw [Run.outcome_bind, Run.outcome_lift, classify_of_kernel kernel]
  rfl

theorem resolveFault_spurious (safe : ∀ tolerated, vm.Consistent tolerated) {fault : PageFault}
    {violation : Violation} : (vm.resolveFault process fault).outcome = .error violation ↔
      (Operation.resolveFault process fault).Spurious vm violation := by
  constructor
  · intro broken
    obtain ⟨rfl, resident⟩ := (resolveFault_satisfies (safe fun violation =>
      violation = .faultedWhileResident fault.address.page process ∧ ∃ entry,
        vm.entry? process fault.address = some entry ∧ entry.isResident = true ∧
          (fault.write = true → entry.writable = true))
      fun entry found resident allowed => ⟨rfl, entry, found, resident, allowed⟩).of_violation
        broken
    refine ⟨rfl, ?_, resident⟩
    by_contra kernel
    rw [resolveFault_of_kernel (Bool.not_eq_true _ ▸ kernel)] at broken
    cases broken
  · rintro ⟨rfl, user, entry, found, resident, allowed⟩
    exact resolveFault_of_resident user found resident allowed

/-- An operation breaks a rule exactly if it reports a fault that is none. -/
theorem step_spurious (safe : ∀ tolerated, vm.Consistent tolerated) (operation : Operation)
    (violation : Violation) :
    (vm.step operation).outcome = .error violation ↔ operation.Spurious vm violation := by
  have quiet : ∀ (post : Answer × Vm arch → Prop), ¬operation.Spurious vm violation →
      (vm.step operation).Satisfies (fun _ => False) post →
        ((vm.step operation).outcome = .error violation ↔ operation.Spurious vm violation) :=
    fun post none satisfies => iff_of_false satisfies.of_violation none
  have maps : ∀ process segment, (vm.mapSegment process segment).Satisfies (fun _ => False)
      fun _ => True := fun process segment =>
    .mono (mapSegment_installs (safe fun _ => True).next_unused process segment)
      fun _ _ => trivial
  cases operation with
  | handleFault process fault =>
      refine Iff.trans (Run.error_bind_iff ?_) (Iff.trans (Run.error_bind_iff ?_)
        (resolveFault_spurious safe))
      · rintro ⟨resolved, after⟩
        exact ⟨_, rfl⟩
      · rintro ⟨result, after⟩
        cases result with
        | ok frame => exact ⟨_, rfl⟩
        | error cause => exact ⟨_, rfl⟩
  | resolveFault process fault =>
      refine (Run.error_bind_iff ?_).trans (resolveFault_spurious safe)
      rintro ⟨result, after⟩
      cases result with
      | ok frame => exact ⟨_, rfl⟩
      | error cause => exact ⟨_, rfl⟩
  | mapSegment process segment =>
      exact quiet (fun _ => True) id (.bind (maps process segment) fun _ _ => .pure trivial)
  | createMapping process file address length =>
      have creates : (vm.createMapping process file address length).Satisfies (fun _ => False)
          fun _ => True := by
        unfold createMapping
        dsimp only
        split
        · exact .pure trivial
        · exact maps process _
      exact quiet (fun _ => True) id (.bind creates fun _ _ => .pure trivial)
  | createProcess | exitProcess | installPage | destroyMapping | copyToUser | copyFromUser
  | setFailingSectors | setTransferCaps | replaceFile =>
      exact quiet _ id (step_satisfies (safe fun _ => False) trivial)

theorem classify_permissionDenied {fault : PageFault}
    (refused : vm.classify process fault = .ok (.error .permissionDenied)) :
    fault.write = true ∧ ∃ entry, vm.entry? process fault.address = some entry ∧
      entry.writable = false := by
  obtain ⟨⟨⟩, _⟩ | ⟨⟨⟩, _⟩ | ⟨_, denied⟩ | ⟨⟨⟩⟩ | ⟨⟨⟩⟩ := classify_error refused
  exact denied

/-- If the frames of the pool can be reached and the segments of mappings fit, an operation
breaks a rule exactly if it reports a fault on a resident page that allows the access. Copies
always end, a resolved fault lets its access be carried out in the frame that was the answer,
and an access is denied only if it is a write to a read-only page. -/
theorem Reachable.safe (reachable : Reachable vm)
    (addressable : vm.frames.pool.Addressable fun _ => False) (fits : vm.Fits) :
    (∀ operation violation, (vm.step operation).outcome = .error violation ↔
      operation.Spurious vm violation) ∧
    (∀ process address data stackPointer, ∃ outcome after,
      (vm.copyToUser process address data stackPointer).Yields (outcome, after)) ∧
    (∀ process address buffer stackPointer, ∃ outcome filled after,
      (vm.copyFromUser process address buffer stackPointer).Yields (outcome, filled, after)) ∧
    (∀ process fault frame after, (vm.resolveFault process fault).Yields (.ok frame, after) →
      ∃ used, after.access? process fault.address.page fault.write = some (frame, used)) ∧
    ∀ process address write stackPointer after,
      (vm.userFrame process address write stackPointer).Yields
        (.error (.fault .permissionDenied), after) →
      write = true ∧ ∃ entry, vm.entry? process address = some entry ∧
        entry.writable = false := by
  have safe := reachable.consistent_of_fits addressable fits
  refine ⟨step_spurious safe, ?_, ?_, ?_, ?_⟩
  · intro process address data stackPointer
    obtain ⟨⟨outcome, after⟩, yields⟩ :=
      (copyToUser_satisfies (safe fun _ => False) process address data stackPointer).exists_yields
    exact ⟨outcome, after, yields⟩
  · intro process address buffer stackPointer
    obtain ⟨⟨outcome, filled, after⟩, yields⟩ := (copyFromUser_satisfies (safe fun _ => False)
      process address buffer stackPointer).exists_yields
    exact ⟨outcome, filled, after, yields⟩
  · intro process fault frame after yields
    exact access?_of_resolved reachable.consistent (fun _ => trivial) yields
  · intro process address write stackPointer after yields
    obtain ⟨_, ⟨⟩⟩ | ⟨_, reason, ⟨⟩, refused | short⟩ :=
      (userFrame_refuses reachable.consistent process address write stackPointer).of_yields yields
        _ rfl
    · exact classify_permissionDenied refused
    · exact short.elim

/-- A mapped page that a byte has been copied to: a fault on it is none, and reporting one breaks
the rule. -/
theorem safe_of_mapping : ∃ vm : Vm .scaleModel, Reachable vm ∧
    (vm.frames.pool.Addressable fun _ => False) ∧ vm.Fits ∧
    vm.mappings.get? ⟨1⟩ = some twoBytes ∧
    (vm.step (.resolveFault ⟨1⟩ ⟨⟨0x1001⟩, true, ⟨0⟩⟩)).outcome =
      .error (.faultedWhileResident ⟨1⟩ ⟨1⟩) ∧
    ∃ outcome filled after, (vm.copyFromUser ⟨1⟩ ⟨0x1001⟩ #[0] ⟨0⟩).Yields
      (outcome, filled, after) := by
  have passes : (oneFrame.step (.createProcess ⟨1⟩)).passes (fun (_, vm) =>
      (vm.step (.mapSegment ⟨1⟩ twoBytes.segment)).passes fun (_, vm) =>
        (vm.step (.copyToUser ⟨1⟩ ⟨0x1001⟩ #[9] ⟨0⟩)).passes fun (_, vm) =>
          vm.mappings.mappings.toList == [(⟨1⟩, twoBytes)] &&
          (vm.entry? ⟨1⟩ ⟨0x1001⟩).any fun entry => entry.isResident && entry.writable) = true := by
    decide +kernel
  simp only [Run.passes_iff, Bool.and_eq_true, Prod.exists, beq_iff_eq,
    Option.any_eq_true _ _] at passes
  obtain ⟨_, started, start, _, mapped, map, _, vm, store, only, entry, found, resident,
    writable⟩ := passes
  have reachable : Reachable vm := .step (.step (.step (.boot oneFrame_booted) start) map) store
  -- none of these operations can be a violation
  have safe : vm.Consistent fun _ => False := by
    have safe := oneFrame_booted.consistent (oneFrame_addressable fun _ => False)
    have quiet : (Operation.createProcess ⟨1⟩).Tolerable (fun _ => False) oneFrame := trivial
    have safe' := ((step_satisfies safe quiet).of_yields start).2.1
    have safe'' := ((step_satisfies safe' (twoBytes_tolerable started)).of_yields map).2.1
    have quiet' : (Operation.copyToUser ⟨1⟩ ⟨0x1001⟩ #[9] ⟨0⟩).Tolerable (fun _ => False)
        mapped := trivial
    exact ((step_satisfies safe'' quiet').of_yields store).2.1
  have addressable : vm.frames.pool.Addressable fun _ => False := by
    obtain ⟨ring, wellFormed, _⟩ := safe.frames
    exact wellFormed.addressable
  have listed : ∀ id mapping, vm.mappings.get? id = some mapping ↔
      (id, mapping) ∈ [((⟨1⟩ : MappingId), twoBytes)] := by
    intro id mapping
    rw [← only]
    exact Std.ExtTreeMap.mem_toList_iff_getElem?_eq_some.symm
  have fits : vm.Fits := by
    intro id mapping live
    cases List.mem_singleton.mp ((listed id mapping).mp live)
    decide
  obtain ⟨breaks, _, copies, _⟩ := reachable.safe addressable fits
  refine ⟨vm, reachable, addressable, fits, (listed _ _).mpr List.mem_cons_self, ?_,
    copies ⟨1⟩ ⟨0x1001⟩ #[0] ⟨0⟩⟩
  exact (breaks _ _).mpr ⟨rfl, rfl, entry, found, resident, fun _ => writable⟩

end Vm
end DemandPaging
