import DemandPaging.Contents

/-!
Block devices. A `Disk` keeps what was written to it. A `SwapDevice` is a disk that
reports a sector count of its own and fails on chosen sectors, before the disk is
touched; pages are moved sector by sector and a transfer stops at the first failure.
-/

namespace DemandPaging

/-- A disk of `size` sectors; those not yet written hold zeros. -/
structure Disk where
  size : Nat
  written : Std.ExtTreeMap Nat Sector := ∅

/-- A disk that may fail, with the sector count it reports. -/
structure SwapDevice where
  disk : Disk
  sectorCount : Nat
  failingReads : List Nat := []
  failingWrites : List Nat := []

namespace Disk

def read (disk : Disk) (sector : Nat) : Except BlockError Sector :=
  if sector < disk.size then
    .ok (disk.written.getD sector Sector.zero)
  else
    .error (.outOfRange sector)

def write (disk : Disk) (sector : Nat) (data : Sector) : Except BlockError Disk :=
  if sector < disk.size then
    .ok { disk with written := disk.written.insert sector data }
  else
    .error (.outOfRange sector)

/-- Reads a sector over a buffer, which has to be one sector long. -/
def readInto (disk : Disk) (sector : Nat) (buffer : Bytes) :
    Checked (Except BlockError Bytes) := do
  discard (Sector.ofBytes buffer)
  return (disk.read sector).map Vector.toArray

/-- Writes what a buffer holds, which has to be one sector. -/
def writeFrom (disk : Disk) (sector : Nat) (buffer : Bytes) :
    Checked (Except BlockError Disk) := do
  return disk.write sector (← Sector.ofBytes buffer)

end Disk

namespace SwapDevice

/-- A device that never fails by itself and reports its disk's size. -/
def ofDisk (disk : Disk) : SwapDevice :=
  { disk, sectorCount := disk.size }

def read (device : SwapDevice) (sector : Nat) : Except BlockError Sector :=
  if device.failingReads.contains sector then .error .device else device.disk.read sector

def write (device : SwapDevice) (sector : Nat) (data : Sector) :
    Except BlockError SwapDevice := do
  if device.failingWrites.contains sector then
    .error .device
  else
    return { device with disk := ← device.disk.write sector data }

/-- Writes the listed sectors of a page, laid out from sector `first` on. What was
written before a failure stays written. -/
def writeSectors (device : SwapDevice) (first : Nat) (page : Page) :
    List (Fin sectorsPerPage) → Except BlockError Unit × SwapDevice
  | [] => (.ok (), device)
  | index :: rest =>
    match device.write (first + index.val) (Page.sector page index) with
    | .error cause => (.error cause, device)
    | .ok device => device.writeSectors first page rest

/-- Reads the listed sectors into a page. What was read before a failure stays in
the page. -/
def readSectors (device : SwapDevice) (first : Nat) (page : Page) :
    List (Fin sectorsPerPage) → Except BlockError Unit × Page
  | [] => (.ok (), page)
  | index :: rest =>
    match device.read (first + index.val) with
    | .error cause => (.error cause, page)
    | .ok sector => device.readSectors first (Page.setSector page index sector) rest

def writePage (device : SwapDevice) (first : Nat) (page : Page) :
    Except BlockError Unit × SwapDevice :=
  device.writeSectors first page (List.finRange sectorsPerPage)

def readPage (device : SwapDevice) (first : Nat) (page : Page) :
    Except BlockError Unit × Page :=
  device.readSectors first page (List.finRange sectorsPerPage)

end SwapDevice
end DemandPaging
