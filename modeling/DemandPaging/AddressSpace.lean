import DemandPaging.Frame.Table
import DemandPaging.Mapping
import DemandPaging.Swap.Table
import DemandPaging.Teardown
import DemandPaging.Translation.Directory

/-!
Address spaces: for every page that a process may touch, where its contents live now.
A page has a hardware translation exactly when a frame backs it, and the operations
here change the two together.
-/

namespace DemandPaging

/-- Where the contents of a page live. -/
inductive Backing where
  /-- In a frame, with a translation. -/
  | frame (frame : FrameNumber)
  | swap (slot : SwapSlot)
  /-- In the file of a mapping, from which they can be read. -/
  | file (mapping : MappingId)
deriving DecidableEq, Repr

/-- A page of an address space. -/
structure PageEntry where
  backing : Backing
  writable : Bool
  /-- The mapping the page belongs to, if any. -/
  mapping : Option MappingId
deriving DecidableEq, Repr

structure AddressSpace (arch : Architecture) where
  owner : ProcessId
  /-- Lowest page of the stack region. -/
  stackBottom : PageNumber
  entries : NumberMap .page PageEntry := ∅
  directory : PageDirectory arch := {}

/-- The stores that the contents of pages are kept in. -/
structure Stores (arch : Architecture) where
  frames : FrameTable arch
  swap : SwapTable
  files : FileStore := {}

namespace PageEntry

def frame? (entry : PageEntry) : Option FrameNumber :=
  match entry.backing with
  | .frame frame => some frame
  | _ => none

def isResident (entry : PageEntry) : Bool :=
  entry.frame?.isSome

theorem isResident_of_frame {entry : PageEntry} {frame : FrameNumber}
    (resident : entry.backing = .frame frame) : entry.isResident = true := by
  unfold isResident frame?
  rw [resident]
  rfl

theorem isResident_eq_false {entry : PageEntry}
    (elsewhere : ∀ frame, entry.backing ≠ .frame frame) : entry.isResident = false := by
  unfold isResident frame?
  cases source : entry.backing with
  | frame frame => exact absurd source (elsewhere frame)
  | file | swap => rfl

end PageEntry

namespace AddressSpace

variable {arch : Architecture}

def size (space : AddressSpace arch) : Nat :=
  space.entries.size

def isEmpty (space : AddressSpace arch) : Bool :=
  space.entries.isEmpty

/-- Whether a page lies below the stack region and has no entry. -/
def isAvailable (space : AddressSpace arch) (page : PageNumber) : Bool :=
  page.value < space.stackBottom.value && !space.entries.contains page

/-- The first page that is not available, of `count` pages from `base` on. -/
def firstUnavailable? (space : AddressSpace arch) (base : PageNumber) :
    Nat → Option PageNumber
  | 0 => none
  | count + 1 =>
    if space.isAvailable base then
      space.firstUnavailable? ⟨base.value + 1⟩ count
    else
      some base

/-- Adds an anonymous page that lives in a frame; false if the page has an entry. -/
def installFrame (space : AddressSpace arch) (page : PageNumber) (frame : FrameNumber)
    (writable : Bool) : Checked (Bool × AddressSpace arch) := do
  if space.entries.contains page then
    return (false, space)
  let entry := { backing := .frame frame, writable, mapping := none }
  let directory ← space.directory.map page frame writable
  return (true, { space with entries := space.entries.insert page entry, directory })

/-- Adds a page of a mapping, to be read from its file when it is touched; false if the
page is not available. -/
def installFile (space : AddressSpace arch) (mapping : Mapping) (page : PageNumber) :
    Bool × AddressSpace arch :=
  if space.isAvailable page then
    let entry := {
      backing := .file mapping.id
      writable := mapping.segment.writable
      mapping := some mapping.id }
    (true, { space with entries := space.entries.insert page entry })
  else
    (false, space)

/-- Makes a page that lives elsewhere live in a frame. -/
def faultIn (space : AddressSpace arch) (page : PageNumber) (frame : FrameNumber) :
    Checked (AddressSpace arch) := do
  match space.entries[page]? with
  | none => .error (.loadWithoutEntry page)
  | some entry =>
    require (¬entry.isResident) (.alreadyResident page)
    let directory ← space.directory.map page frame entry.writable
    let entry := { entry with backing := .frame frame }
    return { space with entries := space.entries.insert page entry, directory }

/-- The frame and entry of a page that has to be resident. -/
def residentEntry (space : AddressSpace arch) (page : PageNumber) :
    Checked (FrameNumber × PageEntry) :=
  match space.entries[page]? with
  | some entry =>
    match entry.backing with
    | .frame frame => .ok (frame, entry)
    | _ => .error (.notResident page space.owner)
  | none => .error (.notResident page space.owner)

/-- Makes a page with this entry live elsewhere than in its frame. -/
def moveOut (space : AddressSpace arch) (page : PageNumber) (entry : PageEntry)
    (backing : Backing) : AddressSpace arch :=
  { space with
    entries := space.entries.insert page { entry with backing }
    directory := (space.directory.unmap page).2 }

/-- Makes a resident page of a mapping live in the mapping's file. The answer is the
frame it had. -/
def evictToFile (space : AddressSpace arch) (page : PageNumber) :
    Checked (FrameNumber × AddressSpace arch) := do
  let (frame, entry) ← space.residentEntry page
  match entry.mapping with
  | none => .error (.noMappingToEvictTo page)
  | some mapping => return (frame, space.moveOut page entry (.file mapping))

/-- Makes a resident page live in a swap slot. The answer is the frame it had. -/
def evictToSwap (space : AddressSpace arch) (page : PageNumber) (slot : SwapSlot) :
    Checked (FrameNumber × AddressSpace arch) := do
  let (frame, entry) ← space.residentEntry page
  return (frame, space.moveOut page entry (.swap slot))

/-- Writes a page of a mapping that lives in a frame back to the file if the page is
dirty. A failure is only logged. -/
def writeBack (space : AddressSpace arch) (stores : Stores arch) (mapping : Mapping)
    (page : PageNumber) (frame : FrameNumber) : Run FileStore := do
  if space.directory.isDirty page then
    let (result, files) ← mapping.writePage stores.files page (← stores.frames.bytes frame)
    match result with
    | .ok () => return files
    | .error cause =>
      Run.log (.writeBackFailed page mapping.id cause)
      return files
  else
    return stores.files

/-- Removes a page of a mapping, after writing it back, and frees its frame or slot;
false if the page does not belong to the mapping. -/
def uninstall (space : AddressSpace arch) (stores : Stores arch) (mapping : Mapping)
    (page : PageNumber) : Run (Bool × AddressSpace arch × Stores arch) := do
  match space.entries[page]? with
  | none => return (false, space, stores)
  | some entry =>
    if entry.mapping ≠ some mapping.id then
      return (false, space, stores)
    let remaining := { space with entries := space.entries.erase page }
    match entry.backing with
    | .file _ => return (true, remaining, stores)
    | .swap slot => return (true, remaining, { stores with swap := ← stores.swap.release slot })
    | .frame frame =>
      let files ← space.writeBack stores mapping page frame
      let frames ← stores.frames.release frame
      return (true, { remaining with directory := (space.directory.unmap page).2 },
        { stores with frames, files })

/-- What has been freed while an address space is destroyed, and what is left. -/
structure Destruction (arch : Architecture) where
  directory : PageDirectory arch
  stores : Stores arch
  released : Released := {}

namespace Destruction

/-- Frees the frame or the slot of one entry. -/
def dropEntry (destruction : Destruction arch) (item : PageNumber × PageEntry) :
    Checked (Destruction arch) := do
  let { directory, stores, released } := destruction
  match item.2.backing with
  | .frame frame =>
    return {
      directory := (directory.unmap item.1).2
      stores := { stores with frames := ← stores.frames.release frame }
      released := { released with frames := released.frames + 1 } }
  | .swap slot =>
    return {
      directory
      stores := { stores with swap := ← stores.swap.release slot }
      released := { released with swapSlots := released.swapSlots + 1 } }
  | .file _ => return destruction

end Destruction

/-- Drops every entry and frees its frame or slot, writing nothing back. -/
def destroy (space : AddressSpace arch) (stores : Stores arch) :
    Checked (Released × Stores arch) := do
  let start : Destruction arch := { directory := space.directory, stores }
  let destruction ← space.entries.toList.foldlM Destruction.dropEntry start
  require (destruction.directory.isEmpty) .directoryNotEmpty
  return (destruction.released, destruction.stores)

end AddressSpace
end DemandPaging
