import DemandPaging.AddressSpace

/-!
The tenants of physical memory: the address spaces of all processes, with what they
need to give up a frame. A page whose file can give it back goes there, and is written
only if it is dirty; every other page goes to swap.
-/

namespace DemandPaging

structure Tenants (arch : Architecture) where
  spaces : NumberMap .process (AddressSpace arch) := ∅
  mappings : MappingTable := {}
  swap : SwapTable
  files : FileStore := {}

namespace Tenants

variable {arch : Architecture}

def setSpace (tenants : Tenants arch) (process : ProcessId) (space : AddressSpace arch) :
    Tenants arch :=
  { tenants with spaces := tenants.spaces.insert process space }

/-- The mapping that a page of an address space belongs to. -/
def mappingOf? (tenants : Tenants arch) (space : AddressSpace arch) (page : PageNumber) :
    Option Mapping := do
  let entry ← space.entries[page]?
  tenants.mappings.get? (← entry.mapping)

def testAndClearAccessed (tenants : Tenants arch) (owner : ProcessId) (page : PageNumber) :
    Bool × Tenants arch :=
  match tenants.spaces[owner]? with
  | none => (false, tenants)
  | some space =>
    let (accessed, directory) := space.directory.testAndClearAccessed page
    (accessed, tenants.setSpace owner { space with directory })

/-- Moves a page to its mapping's file, if the file takes what has changed. -/
def evictToFile (tenants : Tenants arch) (owner : ProcessId) (space : AddressSpace arch)
    (mapping : Mapping) (page : PageNumber) (contents : Page) :
    Run (Except VmError Unit × Tenants arch) := do
  let (result, files) ←
    if space.directory.isDirty page then
      mapping.writePage tenants.files page contents
    else
      pure (.ok (), tenants.files)
  let tenants := { tenants with files }
  match result with
  | .error cause => return (.error cause, tenants)
  | .ok () =>
    let (_, space) ← space.evictToFile page
    return (.ok (), tenants.setSpace owner space)

/-- Moves a page to a swap slot, if there is one and the device takes the page. -/
def evictToSwap (tenants : Tenants arch) (owner : ProcessId) (space : AddressSpace arch)
    (page : PageNumber) (contents : Page) : Run (Except VmError Unit × Tenants arch) := do
  let (result, swap) ← tenants.swap.store contents
  let tenants := { tenants with swap }
  match result with
  | .error cause => return (.error cause, tenants)
  | .ok slot =>
    let (_, space) ← space.evictToSwap page slot
    return (.ok (), tenants.setSpace owner space)

/-- Moves a resident page with these contents out of its frame. -/
def evict (tenants : Tenants arch) (owner : ProcessId) (page : PageNumber)
    (contents : Page) : Run (Except VmError Unit × Tenants arch) := do
  match tenants.spaces[owner]? with
  | none => Run.violate (.ownerWithoutSpace owner)
  | some space =>
    match tenants.mappingOf? space page with
    | none => tenants.evictToSwap owner space page contents
    | some mapping =>
      if ← mapping.evictsToFile page then
        tenants.evictToFile owner space mapping page contents
      else
        tenants.evictToSwap owner space page contents

/-- The tenants as the frame table sees them. -/
def owners : FrameOwners (Tenants arch) where
  testAndClearAccessed := testAndClearAccessed
  evict := evict

end Tenants
end DemandPaging
