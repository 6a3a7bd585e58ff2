import DemandPaging.Frame.Owners
import DemandPaging.Frame.Pool
import DemandPaging.Frame.Request

/-!
The frame table: who owns which frame, and which owned frames may be taken away. The
records lie in an array, at the places of their frames in the pool. The frames that may
be taken away form a ring, linked through their records by place. The head is the frame
that joined the ring first, the hand the one at which the next search for a victim
starts; the two move independently, and frames join just before the head.
-/

namespace DemandPaging

/-- The owner of a frame and its place in the ring. -/
structure FrameRecord where
  owner : ProcessId
  page : PageNumber
  /-- The frame is not in the ring yet, and so cannot be taken away. -/
  referenced : Bool
  next : FrameIndex
  prev : FrameIndex
deriving DecidableEq, Repr

structure FrameTable (arch : Architecture) where
  pool : FramePool arch
  records : Array (Option FrameRecord) := Array.replicate pool.total none
  headIndex : Option FrameIndex := none
  handIndex : Option FrameIndex := none
  /-- Frames in the ring. -/
  queued : Nat := 0
  /-- Frames that some page owns. -/
  resident : Nat := 0
  evictions : Nat := 0

namespace FrameTable

variable {arch : Architecture}

def new (pool : FramePool arch) : Run (FrameTable arch) := do
  Run.log (.framesReady pool.total)
  return { pool }

/-- Frames in the pool. -/
def total (table : FrameTable arch) : Nat :=
  table.pool.total

/-- Frames that no page owns. -/
def free (table : FrameTable arch) : Nat :=
  table.pool.free.length

def head (table : FrameTable arch) : Option FrameNumber :=
  table.headIndex.map table.pool.frameAt

def hand (table : FrameTable arch) : Option FrameNumber :=
  table.handIndex.map table.pool.frameAt

/-- The record of a frame, if it is one of the pool's and some page owns it. -/
def find? (table : FrameTable arch) (frame : FrameNumber) : Option FrameRecord := do
  let index ← table.pool.indexOf? frame
  table.records[index.value]?.join

/-- A frame is in the table if some page owns it. -/
instance : Membership FrameNumber (FrameTable arch) where
  mem table frame := (table.find? frame).isSome

instance (frame : FrameNumber) (table : FrameTable arch) : Decidable (frame ∈ table) :=
  inferInstanceAs (Decidable ((table.find? frame).isSome = true))

def ownerOf (table : FrameTable arch) (frame : FrameNumber) :
    Option (ProcessId × PageNumber) :=
  (table.find? frame).map fun record => (record.owner, record.page)

/-- What the array holds at a place. -/
def entry (table : FrameTable arch) (index : FrameIndex) : Checked (Option FrameRecord) :=
  match table.records[index.value]? with
  | some entry => .ok entry
  | none => .error (.indexOutOfBounds index.value table.records.size)

def setEntry (table : FrameTable arch) (index : FrameIndex) (entry : Option FrameRecord) :
    Checked (FrameTable arch) := do
  require (index.value < table.records.size)
    (.indexOutOfBounds index.value table.records.size)
  return { table with records := table.records.setIfInBounds index.value entry }

/-- The record at a place that the ring leads to. -/
def record (table : FrameTable arch) (index : FrameIndex) : Checked FrameRecord := do
  match ← table.entry index with
  | some record => return record
  | none => .error .untrackedFrameInQueue

/-- Changes the record at a place that the ring leads to. -/
def modifyRecord (table : FrameTable arch) (index : FrameIndex)
    (change : FrameRecord → FrameRecord) : Checked (FrameTable arch) := do
  let record ← table.record index
  table.setEntry index (some (change record))

def bytes (table : FrameTable arch) (frame : FrameNumber) : Checked Page :=
  table.pool.bytes frame

def setBytes (table : FrameTable arch) (frame : FrameNumber) (page : Page) :
    Checked (FrameTable arch) := do
  return { table with pool := ← table.pool.setBytes frame page }

def read (table : FrameTable arch) (frame : FrameNumber) (start length : Nat) : Checked Bytes :=
  table.pool.read frame start length

def write (table : FrameTable arch) (frame : FrameNumber) (start : Nat) (source : Bytes) :
    Checked (FrameTable arch) := do
  return { table with pool := ← table.pool.write frame start source }

/-- Puts the frame at a place into the ring, just before its head. -/
def link (table : FrameTable arch) (index : FrameIndex) : Checked (FrameTable arch) := do
  let linked ← match table.headIndex with
    | none => do
      let table ← table.modifyRecord index fun record =>
        { record with next := index, prev := index }
      pure { table with headIndex := some index, handIndex := some index }
    | some head => do
      let tail := (← table.record head).prev
      let table ← table.modifyRecord index fun record =>
        { record with next := head, prev := tail }
      let table ← table.modifyRecord tail fun record => { record with next := index }
      table.modifyRecord head fun record => { record with prev := index }
  let linked ← linked.modifyRecord index fun record => { record with referenced := false }
  return { linked with queued := linked.queued + 1 }

/-- Takes the links around the frame at a place past it, and head and hand as well. -/
def bypass (table : FrameTable arch) (index : FrameIndex) : Checked (FrameTable arch) := do
  let record ← table.record index
  let table ← table.modifyRecord record.prev fun before => { before with next := record.next }
  let table ← table.modifyRecord record.next fun after => { after with prev := record.prev }
  let past (cursor : Option FrameIndex) : Option FrameIndex :=
    if cursor = some index then some record.next else cursor
  return { table with headIndex := past table.headIndex, handIndex := past table.handIndex }

def unlink (table : FrameTable arch) (index : FrameIndex) : Checked (FrameTable arch) := do
  let table ← (if table.queued = 1 then
      pure { table with headIndex := none, handIndex := none }
    else
      table.bypass index)
  return { table with queued := ← Word.sub table.queued 1 }

/-- Forgets the owner of the frame at a place. -/
def clear (table : FrameTable arch) (index : FrameIndex) : Checked (FrameTable arch) := do
  let table ← table.setEntry index none
  return { table with resident := ← Word.sub table.resident 1 }

/-- Takes the frame at a place out of the ring and forgets its owner. -/
def drop (table : FrameTable arch) (index : FrameIndex) : Checked (FrameTable arch) := do
  let table ← table.unlink index
  table.clear index

/-- Makes a frame one that can be taken away, which it stays; false if no page owns
the frame. -/
def markNotReferenced (table : FrameTable arch) (frame : FrameNumber) :
    Checked (Bool × FrameTable arch) :=
  match table.pool.indexOf? frame with
  | none => return (false, table)
  | some index => do
    match ← table.entry index with
    | none => return (false, table)
    | some record =>
      if record.referenced then
        return (true, ← table.link index)
      else
        return (true, table)

def release (table : FrameTable arch) (frame : FrameNumber) : Checked (FrameTable arch) := do
  let index ← table.pool.indexOf frame
  match ← table.entry index with
  | none => .error (.releaseOfUntrackedFrame frame)
  | some record =>
    let table ← (if record.referenced then pure table else table.unlink index)
    let table ← table.clear index
    return { table with pool := ← table.pool.deallocate frame }

/-- Records the owner of a frame just obtained, clearing the frame if asked to. -/
def track (table : FrameTable arch) (frame : FrameNumber) (request : FrameRequest)
    (owner : ProcessId) (page : PageNumber) : Checked (FrameTable arch) := do
  let table ← (if request.zeroed then table.setBytes frame Page.zero else pure table)
  let index ← table.pool.indexOf frame
  require ((← table.entry index).isNone) .frameAlreadyTracked
  let table ← table.setEntry index
    (some { owner, page, referenced := true, next := index, prev := index })
  return { table with resident := table.resident + 1 }

end FrameTable
end DemandPaging
