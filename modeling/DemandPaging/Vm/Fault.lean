import DemandPaging.PageFault
import DemandPaging.Vm

/-!
Resolution of page faults. A fault is first classified, without touching anything:
either it is rejected or the source of the page's contents is known. Then a frame is
obtained, filled from the source and mapped. A fault in the stack region on a page
without an entry grows the stack.
-/

namespace DemandPaging
namespace Vm

variable {arch : Architecture}

/-- Where the contents of a faulting page come from, or why the fault is rejected. -/
def faultSource (vm : Vm arch) (fault : PageFault) (entry : Option PageEntry) :
    Except FaultError PageSource :=
  if vm.stack.contains arch fault.address then
    if fault.address.value < (vm.stack.lowestAccess fault.stackPointer).value then
      .error .beyondStack
    else
      match entry.map PageEntry.backing with
      | none => .ok .zero
      | some (.swap slot) => .ok (.swap slot)
      | some _ => .error .unbacked
  else
    match entry.map PageEntry.backing with
    | some (.swap slot) => .ok (.swap slot)
    | some (.file mapping) => .ok (.file mapping)
    | _ => .error .unbacked

/-- The source of the contents of a faulting page, or why the fault is rejected. That a
page is resident and the access allowed is no fault, and breaks a rule. -/
def classify (vm : Vm arch) (process : ProcessId) (fault : PageFault) :
    Checked (Except FaultError PageSource) := do
  if !fault.address.isUser arch then
    return .error .kernelAddress
  match vm.spaces[process]? with
  | none => return .error .noSuchProcess
  | some space =>
    let page := fault.address.page
    let entry := space.entries[page]?
    if fault.write && entry.any fun entry => !entry.writable then
      return .error .permissionDenied
    require (¬entry.any PageEntry.isResident) (.faultedWhileResident page process)
    return vm.faultSource fault entry

/-- Fills a frame with a page from its source. -/
def populate (vm : Vm arch) (frame : FrameNumber) (page : PageNumber) :
    PageSource → Run (Except VmError Unit × Vm arch)
  | .zero => return (.ok (), vm)
  | .swap slot => do
    let (result, contents, swap) ← vm.swap.load slot (← vm.frames.bytes frame)
    let frames ← vm.frames.setBytes frame contents
    return (result, { vm with swap, frames })
  | .file id => do
    match vm.mappings.get? id with
    | none => Run.violate .missingMapping
    | some mapping =>
      let contents ← mapping.readPage vm.files page (← vm.frames.bytes frame)
      return (.ok (), { vm with frames := ← vm.frames.setBytes frame contents })

/-- Enters a page that has just been filled into the address space of its process. -/
def settle (space : AddressSpace arch) (page : PageNumber) (frame : FrameNumber) :
    PageSource → Checked (AddressSpace arch)
  | .zero => do
    let (installed, space) ← space.installFrame page frame true
    require installed .pageNotInstalled
    return space
  | _ => space.faultIn page frame

/-- Obtains a frame for a page, fills it from the source and maps it. If the source
cannot be read the frame is free again. -/
def bringIn (vm : Vm arch) (process : ProcessId) (page : PageNumber) (source : PageSource) :
    Run (Except VmError FrameNumber × Vm arch) := do
  let (acquired, vm) ← vm.acquireFrame { zeroed := source = .zero } process page
  match acquired with
  | .error cause => return (.error cause, vm)
  | .ok frame =>
    let (populated, vm) ← vm.populate frame page source
    match populated with
    | .error cause => return (.error cause, { vm with frames := ← vm.frames.release frame })
    | .ok () =>
      let (_, frames) ← vm.frames.markNotReferenced frame
      match vm.spaces[process]? with
      | none => Run.violate .spaceVanishedInFault
      | some space =>
        let tenants := vm.setSpace process (← settle space page frame source)
        return (.ok frame, { vm with toTenants := tenants, frames })

/-- Makes the page that a fault hit resident. The answer is the frame it is in. -/
def resolveFault (vm : Vm arch) (process : ProcessId) (fault : PageFault) :
    Run (Except FaultError FrameNumber × Vm arch) := do
  match ← vm.classify process fault with
  | .error cause => return (.error cause, vm)
  | .ok source =>
    Run.log (.faulted fault.address process source)
    let (result, vm) ← vm.bringIn process fault.address.page source
    return (result.mapError VmError.toFaultError, vm)

/-- Resolves a fault for the trap handler; false if the access has to end the process. -/
def handleFault (vm : Vm arch) (process : ProcessId) (fault : PageFault) :
    Run (Bool × Vm arch) := do
  let (result, vm) ← vm.resolveFault process fault
  match result with
  | .ok _ => return (true, vm)
  | .error cause =>
    Run.log (.faultUnresolved fault.address process cause)
    return (false, vm)

end Vm
end DemandPaging
