import DemandPaging.Proofs.Provenance
import DemandPaging.Proofs.Residency

/-!
What becomes of a page fault. A fault that is rejected is rejected for the first rule it breaks,
and nothing has been touched by then. A fault that is resolved leaves its page in a frame, not
used yet, with the permission and the contents that the page had elsewhere; a new page of a stack
is writable and zero.
-/

namespace DemandPaging

variable {arch : Architecture} {tolerated : Violation → Prop}

namespace PageDirectory

/-- The page is mapped to the frame, and has neither been accessed nor written there. -/
def MapsUnused (directory : PageDirectory arch) (page : PageNumber) (frame : FrameNumber) : Prop :=
  ∃ flags, directory.translate page = some (frame, flags) ∧ flags.has .accessed = false ∧
    flags.has .dirty = false

theorem map_unused (directory : PageDirectory arch) (page : PageNumber) (frame : FrameNumber)
    (writable : Bool) : (directory.map page frame writable).Satisfies (fun _ => True) fun mapped =>
      mapped.MapsUnused page frame := by
  unfold map
  refine .bind (.of_errors fun _ _ => trivial) fun start found => ?_
  let entry : PackedEntry arch := .pack start (PageFlags.userPage writable)
  refine .bind .any fun _ _ => .pure ⟨entry.flags, ?_, ?_, ?_⟩
  · simp [translate, entry, PackedEntry.pack_frame found]
  · simp [entry]
  · simp [entry]

end PageDirectory

namespace AddressSpace

variable (space : AddressSpace arch) (page : PageNumber) (frame : FrameNumber)

theorem installFrame_unused (writable : Bool) :
    (space.installFrame page frame writable).Satisfies (fun _ => True) fun (installed, placed) =>
      installed = true → placed.directory.MapsUnused page frame := by
  unfold installFrame
  split
  · exact .pure (by rintro ⟨⟩)
  · refine .bind (space.directory.map_unused page frame writable) fun directory unused => ?_
    exact .pure fun _ => unused

theorem faultIn_unused : (space.faultIn page frame).Satisfies (fun _ => True) fun placed =>
    placed.directory.MapsUnused page frame := by
  unfold faultIn
  split
  · trivial
  · rename_i entry _
    refine .bind .any fun _ _ => ?_
    exact .bind (space.directory.map_unused page frame entry.writable) fun _ unused => .pure unused

end AddressSpace

namespace Layout

variable {layout middle moved : Layout} {page : UserPage} {frame : FrameNumber}

theorem entry_of_arrival (arrival : Arrival page frame layout moved) :
    (layout.entry page = none ∧
      ∃ writable, moved.entry page = some ⟨.frame frame, writable, none⟩) ∨
    ∃ entry, layout.entry page = some entry ∧
      moved.entry page = some { entry with backing := .frame frame } := by
  cases arrival with
  | fresh writable _ new => exact .inl ⟨new, writable, (place_entry ..).trans (if_pos rfl)⟩
  | swapped entry _ _ found | filed entry _ _ _ _ _ found =>
      exact .inr ⟨entry, found, (place_entry ..).trans (if_pos rfl)⟩

theorem not_backs_of_arrival (sound : layout.Sound tolerated)
    (arrival : Arrival page frame layout moved) {slot : SwapSlot}
    (source : layout.Backs page (.swap slot)) (other : UserPage) :
    ¬moved.Backs other (.swap slot) := by
  intro backs
  by_cases here : other = page
  · subst here
    cases arrival with
    | fresh | swapped | filed => exact absurd (backs_place_self.mp backs) (by simp)
  · refine here (sound.unique (.swap slot) trivial source ?_)
    cases arrival with
    | fresh | swapped | filed => exact (backs_place here).mp backs

end Layout

namespace Vm

variable {vm after : Vm arch} {process : ProcessId} {page : PageNumber} {frame : FrameNumber}
  {fault : PageFault}

theorem settle_unused (space : AddressSpace arch) (page : PageNumber) (frame : FrameNumber)
    (source : PageSource) : (settle space page frame source).Satisfies (fun _ => True)
      fun placed => placed.directory.MapsUnused page frame := by
  cases source with
  | swap | file => exact space.faultIn_unused page frame
  | zero =>
      refine .bind (space.installFrame_unused page frame true) ?_
      rintro ⟨installed, placed⟩ unused
      cases installed with
      | false => trivial
      | true => exact .bind .any fun _ _ => .pure (unused rfl)

theorem bringIn_unused (vm : Vm arch) (process : ProcessId) (page : PageNumber)
    (source : PageSource) : (vm.bringIn process page source).Satisfies (fun _ => True)
      fun (result, after) => ∀ frame, result = .ok frame → ∃ space,
        after.spaces[process]? = some space ∧ space.directory.MapsUnused page frame := by
  unfold bringIn
  refine .bind .any ?_
  rintro ⟨acquired, held⟩ _
  cases acquired with
  | error cause => exact .pure (by rintro frame ⟨⟩)
  | ok frame =>
      refine .bind .any ?_
      rintro ⟨populated, filled⟩ _
      cases populated with
      | error cause => exact .bind .any fun _ _ => .pure (by rintro frame ⟨⟩)
      | ok _ =>
          refine .bind .any ?_
          rintro ⟨_, frames⟩ _
          dsimp only
          split
          · trivial
          · rename_i space _
            refine .bind (.lift (settle_unused space page frame source)) fun placed unused => ?_
            refine .pure ?_
            rintro _ ⟨⟩
            exact ⟨placed, (Tenants.setSpace_spaces ..).trans (if_pos rfl), unused⟩

/-- What a fault is found to be: rejected for the first rule it breaks, or to be resolved. -/
inductive Judged (vm : Vm arch) (process : ProcessId) (fault : PageFault) :
    Except FaultError PageSource → Prop
  | kernelAddress (kernel : fault.address.isUser arch = false) :
      Judged vm process fault (.error .kernelAddress)
  | noSuchProcess (user : fault.address.isUser arch = true)
      (absent : vm.spaces.contains process = false) :
      Judged vm process fault (.error .noSuchProcess)
  | permissionDenied (user : fault.address.isUser arch = true)
      (alive : vm.spaces.contains process = true) (write : fault.write = true) (entry : PageEntry)
      (found : vm.entry? process fault.address = some entry) (readOnly : entry.writable = false) :
      Judged vm process fault (.error .permissionDenied)
  | beyondStack (user : fault.address.isUser arch = true)
      (alive : vm.spaces.contains process = true)
      (allowed : ∀ entry, vm.entry? process fault.address = some entry → fault.write = true →
        entry.writable = true)
      (beyond : vm.IsBeyond fault.address fault.stackPointer) :
      Judged vm process fault (.error .beyondStack)
  | unbacked (user : fault.address.isUser arch = true)
      (alive : vm.spaces.contains process = true)
      (new : vm.entry? process fault.address = none)
      (outside : vm.stack.contains arch fault.address = false) :
      Judged vm process fault (.error .unbacked)
  | resolvable (source : PageSource) (user : fault.address.isUser arch = true)
      (alive : vm.spaces.contains process = true)
      (allowed : ∀ entry, vm.entry? process fault.address = some entry → fault.write = true →
        entry.writable = true)
      (within : ¬vm.IsBeyond fault.address fault.stackPointer)
      (backed : vm.entry? process fault.address = none →
        vm.stack.contains arch fault.address = true) :
      Judged vm process fault (.ok source)

theorem faultSource_of_new (vm : Vm arch) (fault : PageFault) : vm.faultSource fault none =
    if vm.stack.contains arch fault.address = false then .error .unbacked
    else if fault.address.value < (vm.stack.lowestAccess fault.stackPointer).value then
      .error .beyondStack
    else .ok .zero := by
  unfold faultSource
  cases vm.stack.contains arch fault.address <;> rfl

theorem judged_of_new (user : fault.address.isUser arch = true)
    (alive : vm.spaces.contains process = true) (new : vm.entry? process fault.address = none) :
    vm.Judged process fault (vm.faultSource fault none) := by
  have allowed : ∀ entry, vm.entry? process fault.address = some entry → fault.write = true →
      entry.writable = true := by
    intro entry found
    cases new.symm.trans found
  rw [faultSource_of_new]
  split
  · rename_i outside
    exact .unbacked user alive new outside
  · rename_i inside
    rw [Bool.not_eq_false] at inside
    split
    · rename_i below
      exact .beyondStack user alive allowed ⟨inside, below⟩
    · rename_i above
      exact .resolvable _ user alive allowed (fun beyond => above beyond.2) fun _ => inside

theorem judged_of_elsewhere (user : fault.address.isUser arch = true)
    (alive : vm.spaces.contains process = true) {entry : PageEntry}
    (found : vm.entry? process fault.address = some entry) (elsewhere : entry.isResident = false)
    (permitted : fault.write = true → entry.writable = true)
    (unfiled : vm.stack.contains arch fault.address = true → ∀ id, entry.backing ≠ .file id) :
    vm.Judged process fault (vm.faultSource fault (some entry)) := by
  have allowed : ∀ other, vm.entry? process fault.address = some other → fault.write = true →
      other.writable = true := by
    intro other again
    cases found.symm.trans again
    exact permitted
  have refusal := faultSource_of_elsewhere fault elsewhere unfiled
  cases decided : vm.faultSource fault (some entry) with
  | error cause =>
      obtain ⟨rfl, beyond⟩ := (refusal cause).mp decided
      exact .beyondStack user alive allowed beyond
  | ok source =>
      refine .resolvable source user alive allowed (fun beyond => ?_) fun new => ?_
      · cases ((refusal .beyondStack).mpr ⟨rfl, beyond⟩).symm.trans decided
      · cases new.symm.trans found

theorem judged_of_entry (user : fault.address.isUser arch = true)
    (alive : vm.spaces.contains process = true) {entry : PageEntry}
    (found : vm.entry? process fault.address = some entry)
    (unfiled : vm.stack.contains arch fault.address = true → ∀ id, entry.backing ≠ .file id)
    {decided : Except FaultError PageSource}
    (classified : vm.classify process fault = .ok decided) : vm.Judged process fault decided := by
  rw [classify_of_entry user found] at classified
  split at classified
  · rename_i denied
    cases classified
    exact .permissionDenied user alive denied.1 entry found denied.2
  · rename_i permitted
    split at classified
    · cases classified
    · rename_i elsewhere
      cases classified
      refine judged_of_elsewhere user alive found (Bool.not_eq_true _ ▸ elsewhere) ?_ unfiled
      intro write
      simpa [write] using permitted

/-- A fault that is classified is classified by the first rule that it breaks. -/
theorem Placed.judged (placed : vm.Placed) {decided : Except FaultError PageSource}
    (classified : vm.classify process fault = .ok decided) : vm.Judged process fault decided := by
  cases user : fault.address.isUser arch with
  | false =>
      rw [classify_of_kernel user] at classified
      cases classified
      exact .kernelAddress user
  | true =>
      cases alive : vm.spaces.contains process with
      | false =>
          rw [classify_of_absent user alive] at classified
          cases classified
          exact .noSuchProcess user alive
      | true =>
          cases found : vm.entry? process fault.address with
          | none =>
              rw [classify_of_new user alive found] at classified
              cases classified
              exact judged_of_new user alive found
          | some entry =>
              refine judged_of_entry user alive found (fun inside id => ?_) classified
              exact placed.unfiled process _ entry id inside found

namespace Judged

variable {decided : Except FaultError PageSource}

theorem kernelAddress_iff (judged : vm.Judged process fault decided) :
    decided = .error .kernelAddress ↔ fault.address.isUser arch = false := by
  cases judged with
  | kernelAddress kernel => exact iff_of_true rfl kernel
  | noSuchProcess user | permissionDenied user | beyondStack user | unbacked user
  | resolvable _ user => simp [user]

theorem noSuchProcess_iff (judged : vm.Judged process fault decided)
    (user : fault.address.isUser arch = true) :
    decided = .error .noSuchProcess ↔ vm.spaces.contains process = false := by
  cases judged with
  | kernelAddress kernel => cases user.symm.trans kernel
  | noSuchProcess _ absent => exact iff_of_true rfl absent
  | permissionDenied _ alive | beyondStack _ alive | unbacked _ alive | resolvable _ _ alive =>
      exact iff_of_false (by simp) (by rw [alive]; simp)

variable (user : fault.address.isUser arch = true) (alive : vm.spaces.contains process = true)

include user alive in
theorem permissionDenied_iff (judged : vm.Judged process fault decided) :
    decided = .error .permissionDenied ↔ fault.write = true ∧
      ∃ entry, vm.entry? process fault.address = some entry ∧ entry.writable = false := by
  cases judged with
  | kernelAddress kernel => cases user.symm.trans kernel
  | noSuchProcess _ absent => cases alive.symm.trans absent
  | permissionDenied _ _ write entry found readOnly =>
      exact iff_of_true rfl ⟨write, entry, found, readOnly⟩
  | beyondStack _ _ allowed | resolvable _ _ _ allowed =>
      refine iff_of_false (by simp) ?_
      rintro ⟨write, entry, found, readOnly⟩
      cases readOnly.symm.trans (allowed entry found write)
  | unbacked _ _ new =>
      refine iff_of_false (by simp) ?_
      rintro ⟨_, entry, found, _⟩
      cases new.symm.trans found

variable (new : vm.entry? process fault.address = none)

include user alive new in
theorem beyondStack_iff (judged : vm.Judged process fault decided) :
    decided = .error .beyondStack ↔ vm.IsBeyond fault.address fault.stackPointer := by
  cases judged with
  | kernelAddress kernel => cases user.symm.trans kernel
  | noSuchProcess _ absent => cases alive.symm.trans absent
  | permissionDenied _ _ _ entry found => cases new.symm.trans found
  | beyondStack _ _ _ beyond => exact iff_of_true rfl beyond
  | unbacked _ _ _ outside =>
      refine iff_of_false (by simp) fun beyond => ?_
      cases outside.symm.trans beyond.1
  | resolvable _ _ _ _ within => exact iff_of_false (by simp) within

include user alive new in
theorem unbacked_iff (judged : vm.Judged process fault decided) :
    decided = .error .unbacked ↔ vm.stack.contains arch fault.address = false := by
  cases judged with
  | kernelAddress kernel => cases user.symm.trans kernel
  | noSuchProcess _ absent => cases alive.symm.trans absent
  | permissionDenied _ _ _ entry found => cases new.symm.trans found
  | beyondStack _ _ _ beyond => simp [beyond.1]
  | unbacked _ _ _ outside => exact iff_of_true rfl outside
  | resolvable _ _ _ _ _ backed => simp [backed new]

theorem ne_unbacked (judged : vm.Judged process fault decided) {entry : PageEntry}
    (found : vm.entry? process fault.address = some entry) : decided ≠ .error .unbacked := by
  rintro rfl
  cases judged with
  | unbacked _ _ new => cases new.symm.trans found

end Judged

/-- How a fault that breaks no rule of the machine is answered. -/
structure Verdict (vm : Vm arch) (process : ProcessId) (fault : PageFault)
    (result : Except FaultError FrameNumber) : Prop where
  kernelAddress : result = .error .kernelAddress ↔ arch.userLimit ≤ fault.address.value
  noSuchProcess : fault.address.value < arch.userLimit →
    (result = .error .noSuchProcess ↔ vm.spaces.contains process = false)
  permissionDenied : fault.address.value < arch.userLimit → vm.spaces.contains process = true →
    (result = .error .permissionDenied ↔ fault.write = true ∧
      ∃ entry, vm.entry? process fault.address = some entry ∧ entry.writable = false)
  /-- A stack pointer below the slack allows every address of the stack region. -/
  beyondStack : fault.address.value < arch.userLimit → vm.spaces.contains process = true →
    vm.entry? process fault.address = none →
      (result = .error .beyondStack ↔ vm.stack.contains arch fault.address = true ∧
        fault.address.value < fault.stackPointer.value - vm.stack.slack)
  unbacked : fault.address.value < arch.userLimit → vm.spaces.contains process = true →
    vm.entry? process fault.address = none →
      (result = .error .unbacked ↔ vm.stack.contains arch fault.address = false)
  backed : ∀ entry, vm.entry? process fault.address = some entry → result ≠ .error .unbacked

theorem Judged.verdict {decided : Except FaultError PageSource}
    (judged : vm.Judged process fault decided) {result : Except FaultError FrameNumber}
    (agrees : ∀ cause : FaultError, ¬cause.IsShortage →
      (result = .error cause ↔ decided = .error cause)) : vm.Verdict process fault result := by
  have isUser : fault.address.value < arch.userLimit → fault.address.isUser arch = true :=
    decide_eq_true
  refine ⟨(agrees _ id).trans (judged.kernelAddress_iff.trans ?_), fun user => ?_,
    fun user alive => ?_, fun user alive new => ?_, fun user alive new => ?_,
    fun entry found => ?_⟩
  · exact decide_eq_false_iff_not.trans Nat.not_lt
  · exact (agrees _ id).trans (judged.noSuchProcess_iff (isUser user))
  · exact (agrees _ id).trans (judged.permissionDenied_iff (isUser user) alive)
  · exact (agrees _ id).trans (judged.beyondStack_iff (isUser user) alive new)
  · exact (agrees _ id).trans (judged.unbacked_iff (isUser user) alive new)
  · exact (agrees _ id).not.mpr (judged.ne_unbacked found)

/-- A fault that is rejected has changed nothing, and one that is to be resolved fails only for
want of something. -/
theorem resolveFault_classified (vm : Vm arch) (process : ProcessId) (fault : PageFault) :
    (vm.resolveFault process fault).Satisfies (fun _ => True) fun (result, after) =>
      ∃ decided, vm.classify process fault = .ok decided ∧ ∀ cause : FaultError,
        ¬cause.IsShortage → (result = .error cause ↔ decided = .error cause) ∧
          (result = .error cause → after = vm) := by
  unfold resolveFault
  refine .bind (.lift (.of_errors fun _ _ => trivial)) fun decided classified => ?_
  cases decided with
  | error cause =>
      refine .pure ⟨_, classified, fun other _ => ⟨?_, fun _ => rfl⟩⟩
      simp
  | ok source =>
      refine .bind .log fun _ _ => ?_
      refine .bind (vm.bringIn_failsFor process fault.address.page source) ?_
      rintro ⟨result, after⟩ wants
      refine .pure ⟨_, classified, fun cause rejection => ?_⟩
      have other : result.mapError VmError.toFaultError ≠ .error cause := by
        cases result with
        | error reason =>
            rintro ⟨⟩
            exact rejection (wants reason rfl).isShortage.toFaultError
        | ok frame => rintro ⟨⟩
      exact ⟨iff_of_false other (by simp), fun same => absurd same other⟩

/-- The frame holds what was kept where the page was. -/
def Recovers (vm after : Vm arch) (page : PageNumber) (frame : FrameNumber) : Backing → Prop
  | .frame _ => False
  | .swap slot => after.frames.pool.page frame = vm.swap.page slot ∧
      after.swap.isAllocated slot = false
  | .file id => ∃ mapping range, vm.mappings.get? id = some mapping ∧
      mapping.fileRange page = .ok range ∧ (after.frames.pool.page frame).toList =
        (mapping.bytesRead after.files range).toList ++
          List.replicate (pageSize - (mapping.bytesRead after.files range).size) 0

/-- A page has come into a frame and has not been used there yet. -/
structure Settled (vm after : Vm arch) (process : ProcessId) (page : PageNumber)
    (frame : FrameNumber) : Prop where
  unused : ∃ space, after.spaces[process]? = some space ∧ space.directory.MapsUnused page frame
  grown : vm.entryAt (process, page) = none →
    after.entryAt (process, page) = some ⟨.frame frame, true, none⟩ ∧
      after.frames.pool.page frame = Vector.replicate 4096 0
  restored : ∀ entry, vm.entryAt (process, page) = some entry →
    after.entryAt (process, page) = some { entry with backing := .frame frame } ∧
      vm.Recovers after page frame entry.backing

theorem resolveFault_unused (vm : Vm arch) (process : ProcessId) (fault : PageFault) :
    (vm.resolveFault process fault).Satisfies (fun _ => True) fun (result, after) =>
      ∀ frame, result = .ok frame → ∃ space, after.spaces[process]? = some space ∧
        space.directory.MapsUnused fault.address.page frame := by
  unfold resolveFault
  refine .bind .any fun decided _ => ?_
  cases decided with
  | error cause => exact .pure (by rintro frame ⟨⟩)
  | ok source =>
      refine .bind .log fun _ _ => ?_
      refine .bind (vm.bringIn_unused process fault.address.page source) ?_
      rintro ⟨result, after⟩ unused
      cases result with
      | error cause => exact .pure (by rintro frame ⟨⟩)
      | ok frame =>
          refine .pure ?_
          rintro _ ⟨⟩
          exact unused frame rfl

theorem recovers_of_supply (consistent : after.Consistent fun _ => True)
    {entry : PageEntry} (found : vm.layout.entry (process, page) = some entry)
    (elsewhere : entry.isResident = false)
    (emptied : ∀ slot, entry.backing = .swap slot → ∀ other, ¬after.layout.Backs other (.swap slot))
    (supplied : vm.layout.supply after.files (process, page) =
      some (after.frames.pool.page frame)) : vm.Recovers after page frame entry.backing := by
  rw [Layout.supply_eq_find found] at supplied
  cases source : entry.backing with
  | frame frame => cases (PageEntry.isResident_of_frame source).symm.trans elsewhere
  | swap slot =>
      rw [source] at supplied
      refine ⟨(Option.some.inj supplied).symm, Bool.eq_false_iff.mpr fun allocated => ?_⟩
      obtain ⟨other, backs⟩ := (consistent.tenants.slots slot).mp allocated
      exact emptied slot source other backs
  | file id =>
      rw [source] at supplied
      obtain ⟨mapping, live, read⟩ := Option.bind_eq_some_iff.mp supplied
      cases given : mapping.readPage after.files page Page.zero with
      | error violation =>
          rw [given] at read
          cases read
      | ok contents =>
          rw [given] at read
          cases read
          obtain ⟨range, found, bytes⟩ := Mapping.readPage_eq_ok given
          exact ⟨mapping, range, live, found, bytes⟩

theorem settled_of_brings (consistent : vm.Consistent fun _ => True)
    (consistent' : after.Consistent fun _ => True)
    (unused : ∃ space, after.spaces[process]? = some space ∧ space.directory.MapsUnused page frame)
    (brings : Brings (process, page) vm.layout after.layout (.ok frame : Except FaultError _)) :
    vm.Settled after process page frame := by
  obtain ⟨away, ⟨middle, path, arrival⟩, arrived, present, resident, permission⟩ := brings
  have elsewhere := Layout.resident_eq_false.mp away
  have same := Layout.entry_of_moves path elsewhere
  have supplied : vm.layout.supply after.files (process, page) =
      some (after.frames.pool.page frame) := by
    refine Layout.supplies_of_arrival path arrival away (process, page) _ ?_
    rw [Layout.contentsOf_eq present, resident]
    rfl
  refine ⟨unused, fun new => ?_, fun entry found => ?_⟩
  · obtain ⟨_, writable, entered⟩ | ⟨entry, found, _⟩ := Layout.entry_of_arrival arrival
    · refine ⟨?_, ?_⟩
      · cases present.symm.trans entered
        rw [show vm.layout.entry _ = _ from new] at permission
        cases permission
        exact entered
      · rw [Layout.supply_new new] at supplied
        exact (Option.some.inj supplied).symm
    · cases found.symm.trans (same.trans new)
  · obtain ⟨new, _⟩ | ⟨entry', found', entered⟩ := Layout.entry_of_arrival arrival
    · cases new.symm.trans (same.trans found)
    · cases found'.symm.trans (same.trans found)
      refine ⟨entered, recovers_of_supply consistent' found (elsewhere entry found) ?_ supplied⟩
      intro slot source
      have sound : vm.layout.Sound fun _ => True := consistent.tenants.sound vm.frames.pool.page
      exact Layout.not_backs_of_arrival (sound.moves path) arrival ⟨entry, found', source⟩

/-- A fault that is answered is rejected exactly for the first rule that it breaks, and then
nothing is touched; one that is resolved has its page in a frame, not used yet: a new page of a
stack is writable and zero, and any other keeps its permission, its mapping and its contents. -/
theorem Reachable.resolves (reachable : Reachable vm) {result : Except FaultError FrameNumber}
    (yields : (vm.resolveFault process fault).Yields (result, after)) :
    vm.Verdict process fault result ∧
      (∀ cause : FaultError, ¬cause.IsShortage → result = .error cause → after = vm) ∧
      ∀ frame, result = .ok frame → vm.Settled after process fault.address.page frame := by
  obtain ⟨decided, classified, agrees⟩ :=
    (vm.resolveFault_classified process fault).of_yields yields
  refine ⟨?_, fun cause rejection => (agrees cause rejection).2, ?_⟩
  · exact (reachable.placement.judged classified).verdict fun cause rejection =>
      (agrees cause rejection).1
  · rintro frame rfl
    obtain ⟨_, consistent', brings, _⟩ :=
      (resolveFault_satisfies reachable.consistent fun _ _ _ _ => trivial).of_yields yields
    have unused := (vm.resolveFault_unused process fault).of_yields yields frame rfl
    exact settled_of_brings reachable.consistent consistent' unused brings

/-- A page that was evicted to make room for another comes back, and its slot is free again. -/
theorem resolves_swapped : ∃ (vm after : Vm .scaleModel) (frame : FrameNumber), Reachable vm ∧
    (vm.resolveFault ⟨1⟩ ⟨⟨0x1005⟩, false, ⟨0xC0000000⟩⟩).Yields (.ok frame, after) ∧
    vm.entryAt (⟨1⟩, ⟨1⟩) = some ⟨.swap ⟨0⟩, true, none⟩ ∧
    after.entryAt (⟨1⟩, ⟨1⟩) = some ⟨.frame frame, true, none⟩ ∧
    after.frames.pool.page frame = vm.swap.page ⟨0⟩ ∧ after.swap.isAllocated ⟨0⟩ = false := by
  have passes : (oneFrame.run? [.createProcess ⟨1⟩, .installPage ⟨1⟩ ⟨0x1000⟩ true,
      .copyToUser ⟨1⟩ ⟨0x1005⟩ #[7] ⟨0xC0000000⟩, .installPage ⟨1⟩ ⟨0x2000⟩ true]).any (fun vm =>
        vm.entryAt (⟨1⟩, ⟨1⟩) = some ⟨.swap ⟨0⟩, true, none⟩ &&
        (vm.resolveFault ⟨1⟩ ⟨⟨0x1005⟩, false, ⟨0xC0000000⟩⟩).passes fun (result, _) =>
          result.isOk) = true := by
    decide +kernel
  simp only [Option.any_eq_true _ _, Run.passes_iff, Bool.and_eq_true, decide_eq_true_iff,
    Prod.exists] at passes
  obtain ⟨vm, ran, found, result, after, yields, resolved⟩ := passes
  have reachable := (Reachable.boot oneFrame_booted).run ran
  cases result with
  | error cause => cases resolved
  | ok frame =>
      obtain ⟨_, _, settled⟩ := reachable.resolves yields
      obtain ⟨entered, held, free⟩ := (settled frame rfl).restored _ found
      exact ⟨vm, after, frame, reachable, yields, found, entered, held, free⟩

end Vm
end DemandPaging
