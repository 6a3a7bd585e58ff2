import DemandPaging.Address.Arithmetic
import DemandPaging.File
import DemandPaging.Segment

/-!
Mappings: segments installed in the address space of a process. Page by page, a
mapping says which bytes of its file back the page, fills a frame from them, and
writes them back.
-/

namespace DemandPaging

structure Mapping where
  id : MappingId
  owner : ProcessId
  segment : Segment
deriving DecidableEq, Repr

namespace Mapping

def base (mapping : Mapping) : PageNumber :=
  mapping.segment.address.page

/-- How many pages the region reaches into. -/
def pageCount (mapping : Mapping) : Nat :=
  pagesFor (mapping.segment.fileLength + mapping.segment.zeroLength)

def pages (mapping : Mapping) : List PageNumber :=
  (List.range mapping.pageCount).map fun i => ⟨mapping.base.value + i⟩

def contains (mapping : Mapping) (page : PageNumber) : Bool :=
  mapping.base.value ≤ page.value && page.value - mapping.base.value < mapping.pageCount

/-- The part of the file behind a page. -/
structure FileRange where
  offset : Nat
  /-- At most a page; zero for a page past the file's part of the region. -/
  length : Nat
deriving DecidableEq, Repr

/-- The part of the file behind a page of the mapping. Its offset has to fit in a
machine word even if it is empty. -/
def fileRange (mapping : Mapping) (page : PageNumber) : Checked FileRange := do
  require (mapping.contains page) (.pageOutsideMapping page mapping.id)
  let start := (page.value - mapping.base.value) * pageSize
  let offset ← Word.add mapping.segment.offset start
  return { offset, length := min (mapping.segment.fileLength - start) pageSize }

/-- Whether the file can give back a page that is moved out of its frame. A static
page never comes back from the file, and a writable one only if the file holds some
of its bytes. -/
def evictsToFile (mapping : Mapping) (page : PageNumber) : Checked Bool := do
  if mapping.segment.static then
    return false
  if !mapping.segment.writable then
    return true
  return 0 < (← mapping.fileRange page).length

/-- Fills a frame with a page: the bytes the file gives, and zeros after them. -/
def readPage (mapping : Mapping) (files : FileStore) (page : PageNumber) (dest : Page) :
    Checked Page := do
  let range ← mapping.fileRange page
  let read := (files.get mapping.segment.file).readAt range.offset range.length
  return Page.clearFrom (Page.overwrite dest 0 read) read.size

/-- Writes the bytes of a page that the file backs, unless the mapping is read-only or
static. The file may take fewer bytes than that, which is a failure. -/
def writePage (mapping : Mapping) (files : FileStore) (page : PageNumber) (source : Page) :
    Checked (Except VmError Unit × FileStore) := do
  if !mapping.segment.writable || mapping.segment.static then
    return (.ok (), files)
  let range ← mapping.fileRange page
  if range.length = 0 then
    return (.ok (), files)
  let channel := files.get mapping.segment.file
  let (written, channel) := channel.writeAt range.offset (Page.slice source 0 range.length)
  let files := files.set mapping.segment.file channel
  if written < range.length then
    return (.error .shortWrite, files)
  return (.ok (), files)

end Mapping

/-- The mappings of every process. Numbers are given out from one on and never
again. -/
structure MappingTable where
  mappings : NumberMap .mapping Mapping := ∅
  lastId : Nat := 0

namespace MappingTable

def get? (table : MappingTable) (id : MappingId) : Option Mapping :=
  table.mappings[id]?

/-- The mapping that a segment becomes, under the next number. -/
def next (table : MappingTable) (owner : ProcessId) (segment : Segment) : Checked Mapping := do
  let aligned ← segment.address.isAligned pageSize
  require aligned .segmentUnaligned
  return { id := ⟨table.lastId + 1⟩, owner, segment }

/-- Enters a mapping, whose number no other may have, and uses the number up. -/
def insert (table : MappingTable) (mapping : Mapping) : Checked MappingTable := do
  require (mapping.id ∉ table.mappings) (.mappingNumberInUse mapping.id)
  return {
    mappings := table.mappings.insert mapping.id mapping
    lastId := mapping.id.value }

def erase (table : MappingTable) (id : MappingId) : MappingTable :=
  { table with mappings := table.mappings.erase id }

/-- Numbers of a process's mappings, in increasing order. -/
def ownedBy (table : MappingTable) (owner : ProcessId) : List MappingId :=
  (table.mappings.filter fun _ mapping => mapping.owner = owner).keys

def size (table : MappingTable) : Nat :=
  table.mappings.size

end MappingTable
end DemandPaging
