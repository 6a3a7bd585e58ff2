import DemandPaging.Vm.Fault

/-!
Copies between the kernel and a user's memory. A range of user memory is cut into
pieces, each within one page, and each piece is made accessible and transferred before
the next one is looked at.
-/

namespace DemandPaging

/-- The part of a range of memory that lies in one page. -/
structure RangePiece where
  address : VirtualAddress
  length : Nat
deriving DecidableEq, Repr

/-- The pieces of a range, in order. Each of them ends where its page does, and the last
one where the range does. -/
def RangePiece.ofRange (address : VirtualAddress) (length : Nat) : List RangePiece :=
  if length = 0 then
    []
  else
    let chunk := min (pageSize - address.offset) length
    { address, length := chunk } :: ofRange ⟨address.value + chunk⟩ (length - chunk)
termination_by length
decreasing_by
  have inside : address.offset < pageSize := Nat.mod_lt _ (by decide)
  omega

namespace Vm

variable {arch : Architecture}

/-- Lets the processor carry out an access to a page, if it does not fault. -/
def access? (vm : Vm arch) (process : ProcessId) (page : PageNumber) (write : Bool) :
    Option (FrameNumber × Vm arch) := do
  let space ← vm.spaces[process]?
  let (frame, directory) := space.directory.recordAccess page write
  return (← frame, { vm with toTenants := vm.setSpace process { space with directory } })

/-- Carries out an access of a process, resolving a page fault if there is one. The
answer is the frame behind the address. -/
def userFrame (vm : Vm arch) (process : ProcessId) (address : VirtualAddress) (write : Bool)
    (stackPointer : VirtualAddress) : Run (Except VmError FrameNumber × Vm arch) := do
  if !vm.spaces.contains process then
    return (.error (.noSuchProcess process), vm)
  match vm.access? process address.page write with
  | some (frame, vm) => return (.ok frame, vm)
  | none =>
    let (resolved, vm) ← vm.resolveFault process { address, write, stackPointer }
    match resolved with
    | .error cause => return (.error (.fault cause), vm)
    | .ok _ =>
      match vm.access? process address.page write with
      | some (frame, vm) => return (.ok frame, vm)
      | none => return (.error (.fault .permissionDenied), vm)

/-- Makes a piece accessible for writing and puts bytes there. -/
def storePiece (vm : Vm arch) (process : ProcessId) (piece : RangePiece) (source : Bytes)
    (stackPointer : VirtualAddress) : Run (Except VmError Unit × Vm arch) := do
  let (result, vm) ← vm.userFrame process piece.address true stackPointer
  match result with
  | .error cause => return (.error cause, vm)
  | .ok frame =>
    let frames ← vm.frames.write frame piece.address.offset source
    return (.ok (), { vm with frames })

/-- Makes a piece accessible for reading and takes its bytes. -/
def fetchPiece (vm : Vm arch) (process : ProcessId) (piece : RangePiece)
    (stackPointer : VirtualAddress) : Run (Except VmError Bytes × Vm arch) := do
  let (result, vm) ← vm.userFrame process piece.address false stackPointer
  match result with
  | .error cause => return (.error cause, vm)
  | .ok frame =>
    let bytes ← vm.frames.read frame piece.address.offset piece.length
    return (.ok bytes, vm)

structure CopyOutcome where
  /-- How many bytes were copied, from the start of the range on. -/
  copied : Nat
  result : Except VmError Unit

/-- Whether a range of memory ends within user space. -/
def inUserSpace (arch : Architecture) (address : VirtualAddress) (length : Nat) : Bool :=
  address.value + length ≤ arch.userLimit

/-- Copies the bytes of `data` that belong to the listed pieces, where `data` is for the
range from `base` on. -/
def writePieces (process : ProcessId) (base : VirtualAddress) (data : Bytes)
    (stackPointer : VirtualAddress) (vm : Vm arch) :
    List RangePiece → Run (CopyOutcome × Vm arch)
  | [] => return ({ copied := data.size, result := .ok () }, vm)
  | piece :: rest => do
    let start := piece.address.value - base.value
    let source := data.extract start (start + piece.length)
    let (result, vm) ← vm.storePiece process piece source stackPointer
    match result with
    | .error cause => return ({ copied := start, result := .error cause }, vm)
    | .ok () => writePieces process base data stackPointer vm rest

/-- Copies the listed pieces into a buffer for the range from `base` on. -/
def readPieces (process : ProcessId) (base : VirtualAddress) (buffer : Bytes)
    (stackPointer : VirtualAddress) (vm : Vm arch) :
    List RangePiece → Run (CopyOutcome × Bytes × Vm arch)
  | [] => return ({ copied := buffer.size, result := .ok () }, buffer, vm)
  | piece :: rest => do
    let start := piece.address.value - base.value
    let (result, vm) ← vm.fetchPiece process piece stackPointer
    match result with
    | .error cause => return ({ copied := start, result := .error cause }, buffer, vm)
    | .ok bytes => readPieces process base (buffer.overwrite start bytes) stackPointer vm rest

/-- Copies bytes into a process's memory. On a failure, the pieces before the one that
failed have been copied. -/
def copyToUser (vm : Vm arch) (process : ProcessId) (address : VirtualAddress)
    (data : Bytes) (stackPointer : VirtualAddress) : Run (CopyOutcome × Vm arch) :=
  if inUserSpace arch address data.size then
    writePieces process address data stackPointer vm (RangePiece.ofRange address data.size)
  else
    return ({ copied := 0, result := .error (.fault .kernelAddress) }, vm)

/-- Fills a buffer from a process's memory. On a failure, the pieces before the one that
failed have been copied. -/
def copyFromUser (vm : Vm arch) (process : ProcessId) (address : VirtualAddress)
    (buffer : Bytes) (stackPointer : VirtualAddress) :
    Run (CopyOutcome × Bytes × Vm arch) :=
  if inUserSpace arch address buffer.size then
    readPieces process address buffer stackPointer vm (RangePiece.ofRange address buffer.size)
  else
    return ({ copied := 0, result := .error (.fault .kernelAddress) }, buffer, vm)

end Vm
end DemandPaging
