import DemandPaging.Vm.Mapping

/-!
The life of processes: creation of an address space, pages installed at once, and the
release of everything at exit.
-/

namespace DemandPaging
namespace Vm

variable {arch : Architecture}

/-- Creates an empty address space. -/
def createProcess (vm : Vm arch) (process : ProcessId) :
    Run (Except VmError Unit × Vm arch) := do
  if vm.spaces.contains process then
    return (.error (.processExists process), vm)
  let space := { owner := process, stackBottom := vm.stack.bottomPage }
  Run.log (.spaceCreated process)
  return (.ok (), { vm with toTenants := vm.setSpace process space })

/-- Gives a page a zeroed frame at once. -/
def installPage (vm : Vm arch) (process : ProcessId) (address : VirtualAddress)
    (writable : Bool) : Run (Except VmError FrameNumber × Vm arch) := do
  if !address.isUser arch then
    return (.error (.fault .kernelAddress), vm)
  let page := address.page
  match vm.spaces[process]? with
  | none => return (.error (.noSuchProcess process), vm)
  | some space =>
    if space.entries.contains page then
      return (.error (.overlap page), vm)
    let (acquired, vm) ← vm.acquireFrame { zeroed := true } process page
    match acquired with
    | .error cause => return (.error cause, vm)
    | .ok frame =>
      match vm.spaces[process]? with
      | none => Run.violate .spaceVanishedInInstall
      | some space =>
        let (installed, space) ← space.installFrame page frame writable
        require installed .pageNotInstalled
        let (_, frames) ← vm.frames.markNotReferenced frame
        return (.ok frame, { vm with toTenants := vm.setSpace process space, frames })

def removeMappings (vm : Vm arch) : List MappingId → Run (Except VmError Unit × Vm arch)
  | [] => return (.ok (), vm)
  | id :: rest => do
    let (result, vm) ← vm.removeMapping id
    match result with
    | .error cause => return (.error cause, vm)
    | .ok () => vm.removeMappings rest

/-- Ends a process: its mappings are taken down, so that changed pages reach their
files, and then all that is left of its address space. -/
def exitProcess (vm : Vm arch) (process : ProcessId) :
    Run (Except VmError Teardown × Vm arch) := do
  if !vm.spaces.contains process then
    return (.error (.noSuchProcess process), vm)
  let ids := vm.mappings.ownedBy process
  let (result, vm) ← vm.removeMappings ids
  match result with
  | .error cause => return (.error cause, vm)
  | .ok () =>
    match vm.spaces[process]? with
    | none => return (.error (.noSuchProcess process), vm)
    | some space =>
      let (released, stores) ← space.destroy vm.stores
      let teardown : Teardown := {
        mappings := ids.length, frames := released.frames, swapSlots := released.swapSlots }
      Run.log (.spaceTornDown process teardown)
      return (.ok teardown,
        { vm.setStores stores with spaces := vm.spaces.erase process })

end Vm
end DemandPaging
