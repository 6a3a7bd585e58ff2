import DemandPaging.Run
import DemandPaging.Swap.Device
import DemandPaging.Swap.Slots

/-!
The swap table: a device cut into page-sized slots, with no record of them on the
device. Storing a page takes a slot; loading one frees its slot, unless the device
fails, in which case the slot keeps the page.
-/

namespace DemandPaging

structure SwapTable where
  device : SwapDevice
  slots : SlotAllocator

namespace SwapTable

/-- The first sector of a slot; sector numbers have 32 bits. -/
def firstSector (slot : SwapSlot) : Checked Nat := do
  return (← Word.mul slot.value sectorsPerPage) % 0x100000000

def new (device : SwapDevice) : Run SwapTable := do
  let capacity := device.sectorCount / sectorsPerPage
  Run.log (.swapReady device.sectorCount capacity)
  return { device, slots := .new capacity }

def capacity (swap : SwapTable) : Nat :=
  swap.slots.capacity

def used (swap : SwapTable) : Nat :=
  swap.slots.used

def isAllocated (swap : SwapTable) (slot : SwapSlot) : Bool :=
  swap.slots.isAllocated slot

/-- Writes a page to a free slot. The slot is given back if the device fails. -/
def store (swap : SwapTable) (contents : Page) :
    Run (Except VmError SwapSlot × SwapTable) := do
  match ← swap.slots.allocate with
  | none => return (.error .swapFull, swap)
  | some (slot, slots) =>
    let first ← firstSector slot
    match swap.device.writePage first contents with
    | (.error cause, device) =>
      return (.error (.io cause), { device, slots := ← slots.release slot })
    | (.ok (), device) =>
      Run.log (.slotWritten slot)
      return (.ok slot, { device, slots })

/-- Reads a slot over the contents of a page and frees the slot. -/
def load (swap : SwapTable) (slot : SwapSlot) (dest : Page) :
    Run (Except VmError Unit × Page × SwapTable) := do
  require (swap.isAllocated slot) (.loadOfFreeSlot slot)
  let first ← firstSector slot
  match swap.device.readPage first dest with
  | (.error cause, dest) => return (.error (.io cause), dest, swap)
  | (.ok (), dest) =>
    let slots ← swap.slots.release slot
    Run.log (.slotRead slot)
    return (.ok (), dest, { swap with slots })

def release (swap : SwapTable) (slot : SwapSlot) : Checked SwapTable := do
  return { swap with slots := ← swap.slots.release slot }

/-- Stores what a buffer holds, which has to be one page. -/
def storeBytes (swap : SwapTable) (contents : Bytes) :
    Run (Except VmError SwapSlot × SwapTable) := do
  swap.store (← Page.ofBytes contents .storeSizeMismatch)

/-- Loads a slot into a buffer, which has to be one page long. -/
def loadBytes (swap : SwapTable) (slot : SwapSlot) (dest : Bytes) :
    Run (Except VmError Unit × Page × SwapTable) := do
  swap.load slot (← Page.ofBytes dest .loadSizeMismatch)

def setFailing (swap : SwapTable) (reads writes : List Nat) : SwapTable :=
  { swap with device := { swap.device with failingReads := reads, failingWrites := writes } }

end SwapTable
end DemandPaging
