import DemandPaging.Address.Arithmetic
import DemandPaging.Contents

/-!
The pool of frames that user pages may occupy: a contiguous range of frames, a stack
of those that are free, and the contents of all. The frame freed last is handed out
first; a new pool hands out its lowest frame first.
-/

namespace DemandPaging

/-- How the contents of a frame are reached. -/
inductive FrameAccess where
  /-- The pool keeps the contents itself, by the frame's place in the range. -/
  | hosted
  /-- The contents lie `offset` bytes above the frame's physical address, in a direct map
  of memory. -/
  | directMapped (offset : Nat)
deriving DecidableEq, Repr

structure FramePool (arch : Architecture) where
  base : FrameNumber
  total : Nat
  /-- The free frames, the next one to be handed out first. -/
  free : List FrameNumber
  access : FrameAccess
  /-- Contents by frame; a frame not yet written holds zeros. -/
  contents : NumberMap .frame Page := ∅

namespace FramePool

variable {arch : Architecture}

/-- The pool of `total` zeroed frames from `base` on, all free. Their numbers have to fit
in a machine word, and so has the size of what the pool keeps itself. -/
def new (base : FrameNumber) (total : Nat) (access : FrameAccess) :
    Checked (FramePool arch) := do
  if access = .hosted then
    discard (Word.mul total pageSize)
  require (base.value + total ≤ wordLimit) (.overflow .add)
  return { base, total, access, free := (List.range total).map fun i => ⟨base.value + i⟩ }

def contains (pool : FramePool arch) (frame : FrameNumber) : Bool :=
  pool.base.value ≤ frame.value && frame.value - pool.base.value < pool.total

/-- The place of a frame of the pool. -/
def indexOf? (pool : FramePool arch) (frame : FrameNumber) : Option FrameIndex :=
  if pool.contains frame then some ⟨frame.value - pool.base.value⟩ else none

/-- The place of a frame, which has to be one of the pool's. -/
def indexOf (pool : FramePool arch) (frame : FrameNumber) : Checked FrameIndex :=
  match pool.indexOf? frame with
  | some index => .ok index
  | none => .error (.foreignFrame frame)

def frameAt (pool : FramePool arch) (index : FrameIndex) : FrameNumber :=
  ⟨pool.base.value + index.value⟩

def allocate (pool : FramePool arch) : Option (FrameNumber × FramePool arch) :=
  match pool.free with
  | [] => none
  | frame :: free => some (frame, { pool with free })

def deallocate (pool : FramePool arch) (frame : FrameNumber) : Checked (FramePool arch) := do
  require (pool.contains frame) (.foreignFrame frame)
  require (frame ∉ pool.free) (.frameFreedTwice frame)
  return { pool with free := frame :: pool.free }

/-- Checks that the contents of a frame can be reached: a direct map covers valid physical
addresses only, and has an address for each. -/
def reach (pool : FramePool arch) (frame : FrameNumber) : Checked Unit := do
  require (pool.contains frame) (.foreignFrame frame)
  match pool.access with
  | .hosted => return ()
  | .directMapped offset => discard (Word.add offset (← frame.frameStart arch).value)

def bytes (pool : FramePool arch) (frame : FrameNumber) : Checked Page := do
  pool.reach frame
  return pool.contents.getD frame Page.zero

def setBytes (pool : FramePool arch) (frame : FrameNumber) (page : Page) :
    Checked (FramePool arch) := do
  pool.reach frame
  return { pool with contents := pool.contents.insert frame page }

/-- The `length` bytes of a frame from `start` on, which must not leave the frame. -/
def read (pool : FramePool arch) (frame : FrameNumber) (start length : Nat) : Checked Bytes := do
  let page ← pool.bytes frame
  let stop ← Word.add start length
  require (stop ≤ pageSize) (.beyondFrame stop)
  return Page.slice page start length

/-- Writes bytes into a frame, which they must not leave. -/
def write (pool : FramePool arch) (frame : FrameNumber) (start : Nat) (source : Bytes) :
    Checked (FramePool arch) := do
  let page ← pool.bytes frame
  let stop ← Word.add start source.size
  require (stop ≤ pageSize) (.beyondFrame stop)
  pool.setBytes frame (Page.overwrite page start source)

end FramePool
end DemandPaging
