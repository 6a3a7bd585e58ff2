import DemandPaging.Vm.Copy
import DemandPaging.Vm.Process

/-!
The operations on virtual memory as data, with the one function that carries them out.
Besides what processes and the kernel ask for there are changes of the surroundings:
sectors of the swap device that begin or cease to fail, and files that are replaced or
whose transfers are cut short.
-/

namespace DemandPaging
namespace Vm

inductive Operation where
  | createProcess (process : ProcessId)
  | exitProcess (process : ProcessId)
  | handleFault (process : ProcessId) (fault : PageFault)
  | resolveFault (process : ProcessId) (fault : PageFault)
  | installPage (process : ProcessId) (address : VirtualAddress) (writable : Bool)
  | createMapping (process : ProcessId) (file : FileId) (address : VirtualAddress)
      (length : Nat)
  | mapSegment (process : ProcessId) (segment : Segment)
  | destroyMapping (process : ProcessId) (mapping : MappingId)
  | copyToUser (process : ProcessId) (address : VirtualAddress) (data : Bytes)
      (stackPointer : VirtualAddress)
  | copyFromUser (process : ProcessId) (address : VirtualAddress) (buffer : Bytes)
      (stackPointer : VirtualAddress)
  | setFailingSectors (reads writes : List Nat)
  | setTransferCaps (file : FileId) (read write : Option Nat)
  | replaceFile (file : FileId) (contents : Bytes)

inductive Answer where
  | done
  | handled (resolved : Bool)
  | frame (frame : FrameNumber)
  | mapping (mapping : MappingId)
  | teardown (teardown : Teardown)
  /-- How a copy into user memory ended. -/
  | stored (outcome : CopyOutcome)
  /-- How a copy from user memory ended, with the buffer as far as it was filled. -/
  | fetched (outcome : CopyOutcome) (buffer : Bytes)
  | faultError (cause : FaultError)
  | error (cause : VmError)

namespace Answer

def ofResult {α : Type} (answer : α → Answer) : Except VmError α → Answer
  | .ok value => answer value
  | .error cause => .error cause

end Answer

variable {arch : Architecture}

def replaceFile (vm : Vm arch) (file : FileId) (contents : Bytes) : Vm arch :=
  { vm with files := vm.files.set file ((vm.files.get file).replace contents) }

def setTransferCaps (vm : Vm arch) (file : FileId) (read write : Option Nat) : Vm arch :=
  { vm with files := vm.files.set file ((vm.files.get file).setCaps read write) }

def step (vm : Vm arch) : Operation → Run (Answer × Vm arch)
  | .createProcess process => do
    let (result, vm) ← vm.createProcess process
    return (.ofResult (fun _ => .done) result, vm)
  | .exitProcess process => do
    let (result, vm) ← vm.exitProcess process
    return (.ofResult .teardown result, vm)
  | .handleFault process fault => do
    let (resolved, vm) ← vm.handleFault process fault
    return (.handled resolved, vm)
  | .resolveFault process fault => do
    let (result, vm) ← vm.resolveFault process fault
    match result with
    | .ok frame => return (.frame frame, vm)
    | .error cause => return (.faultError cause, vm)
  | .installPage process address writable => do
    let (result, vm) ← vm.installPage process address writable
    return (.ofResult .frame result, vm)
  | .createMapping process file address length => do
    let (result, vm) ← vm.createMapping process file address length
    return (.ofResult .mapping result, vm)
  | .mapSegment process segment => do
    let (result, vm) ← vm.mapSegment process segment
    return (.ofResult .mapping result, vm)
  | .destroyMapping process mapping => do
    let (result, vm) ← vm.destroyMapping process mapping
    return (.ofResult (fun _ => .done) result, vm)
  | .copyToUser process address data stackPointer => do
    let (outcome, vm) ← vm.copyToUser process address data stackPointer
    return (.stored outcome, vm)
  | .copyFromUser process address buffer stackPointer => do
    let (outcome, buffer, vm) ← vm.copyFromUser process address buffer stackPointer
    return (.fetched outcome buffer, vm)
  | .setFailingSectors reads writes =>
    return (.done, { vm with swap := vm.swap.setFailing reads writes })
  | .setTransferCaps file read write => return (.done, vm.setTransferCaps file read write)
  | .replaceFile file contents => return (.done, vm.replaceFile file contents)

end Vm
end DemandPaging
