import DemandPaging.Vm

/-!
Mapping of files into address spaces. A mapping is refused as a whole, before anything
changes, or all of its pages gain an entry.
-/

namespace DemandPaging
namespace Vm

variable {arch : Architecture}

/-- Length in bytes of a segment that can be mapped, or why it cannot be. -/
def mappableLength (arch : Architecture) (segment : Segment) : Except VmError Nat :=
  if segment.address.value = 0 then
    .error .nullAddress
  else if segment.address.offset ≠ 0 then
    .error (.misaligned segment.address)
  else
    match segment.length? with
    | none => .error .invalidLength
    | some length =>
      if 0 < length ∧ segment.address.value + length ≤ arch.userLimit then
        .ok length
      else
        .error .invalidLength

/-- Adds every page of a mapping to an address space in which they are available. -/
def installPages (space : AddressSpace arch) (mapping : Mapping) :
    Checked (AddressSpace arch) :=
  mapping.pages.foldlM (fun space page => do
    let (installed, space) := space.installFile mapping page
    require installed .pageNotInstalled
    return space) space

/-- Maps a segment. Its pages have to lie below the stack region and to be unused; they
are loaded when they are touched. -/
def mapSegment (vm : Vm arch) (process : ProcessId) (segment : Segment) :
    Run (Except VmError MappingId × Vm arch) := do
  match mappableLength arch segment with
  | .error cause => return (.error cause, vm)
  | .ok length =>
    match vm.spaces[process]? with
    | none => return (.error (.noSuchProcess process), vm)
    | some space =>
      let count := pagesFor length
      match space.firstUnavailable? segment.address.page count with
      | some page => return (.error (.overlap page), vm)
      | none =>
        let mapping ← vm.mappings.next process segment
        let space ← installPages space mapping
        Run.log (.mapped mapping.id count segment.address process)
        let mappings ← vm.mappings.insert mapping
        return (.ok mapping.id,
          { vm with toTenants := { vm.setSpace process space with mappings } })

/-- Maps the first bytes of a file, writable, from its start on. -/
def createMapping (vm : Vm arch) (process : ProcessId) (file : FileId)
    (address : VirtualAddress) (length : Nat) : Run (Except VmError MappingId × Vm arch) :=
  let size := (vm.files.get file).file.size
  if size = 0 then
    return (.error .emptyFile, vm)
  else
    vm.mapSegment process (Segment.wholeFile file size address length)

/-- What has been removed while a mapping is taken down, and what is left. -/
structure Removal (arch : Architecture) where
  space : AddressSpace arch
  stores : Stores arch
  pages : Nat := 0

def Removal.dropPage (mapping : Mapping) (removal : Removal arch) (page : PageNumber) :
    Run (Removal arch) := do
  let (removed, space, stores) ← removal.space.uninstall removal.stores mapping page
  return { space, stores, pages := if removed then removal.pages + 1 else removal.pages }

/-- Writes back and removes every page of a mapping, and then the mapping. -/
def removeMapping (vm : Vm arch) (id : MappingId) :
    Run (Except VmError Unit × Vm arch) := do
  match vm.mappings.get? id with
  | none => return (.error (.noSuchMapping id), vm)
  | some mapping =>
    match vm.spaces[mapping.owner]? with
    | none => Run.violate .mappingOutlivedSpace
    | some space =>
      let start : Removal arch := { space, stores := vm.stores }
      let removal ← mapping.pages.foldlM (Removal.dropPage mapping) start
      Run.log (.unmapped id removal.pages)
      let vm := vm.setStores removal.stores
      let tenants := vm.setSpace mapping.owner removal.space
      return (.ok (), { vm with
        toTenants := { tenants with mappings := vm.mappings.erase id } })

def destroyMapping (vm : Vm arch) (process : ProcessId) (id : MappingId) :
    Run (Except VmError Unit × Vm arch) :=
  if (vm.mappings.get? id).any fun mapping => mapping.owner = process then
    vm.removeMapping id
  else
    return (.error (.noSuchMapping id), vm)

end Vm
end DemandPaging
