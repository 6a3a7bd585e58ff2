import DemandPaging.Address

/-!
The failures that the pager's operations answer with, and their texts. `name`
is the word for a failure, `message` the sentence shown to a user, and
`debugText` the word with what it was raised for.
-/

namespace DemandPaging

/-- Failures of a block device. -/
inductive BlockError where
  /-- The sector lies beyond the end of the device. -/
  | outOfRange (sector : Nat)
  /-- The device reported that a transfer failed. -/
  | device
deriving DecidableEq, Repr

/-- Why a page fault could not be resolved. -/
inductive FaultError where
  | noSuchProcess
  /-- The address is not in user space. -/
  | kernelAddress
  /-- A write to a read-only page. -/
  | permissionDenied
  /-- An access to the stack region too far below the stack pointer. -/
  | beyondStack
  /-- Nothing backs the page. -/
  | unbacked
  | outOfFrames
  | swapFull
  /-- The backing store could not be read or written. -/
  | io
deriving DecidableEq, Repr

/-- Why an operation on virtual memory failed. -/
inductive VmError where
  /-- No frame is free and there is nothing to evict. -/
  | outOfFrames
  | swapFull
  | io (cause : BlockError)
  /-- A file took fewer bytes than the write-back of a page needed. -/
  | shortWrite
  | nullAddress
  | misaligned (address : VirtualAddress)
  /-- A mapping is empty, or does not fit in user space. -/
  | invalidLength
  | emptyFile
  /-- The page is in use already, or lies in the stack region. -/
  | overlap (page : PageNumber)
  | noSuchProcess (process : ProcessId)
  | processExists (process : ProcessId)
  | noSuchMapping (mapping : MappingId)
  /-- A user access whose page fault could not be resolved. -/
  | fault (cause : FaultError)
deriving DecidableEq, Repr

namespace BlockError

def name : BlockError → String
  | outOfRange _ => "OutOfRange"
  | device => "Device"

def message : BlockError → String
  | outOfRange sector => s!"sector {sector} is out of range"
  | device => "device transfer failed"

def debugText (error : BlockError) : String :=
  match error with
  | outOfRange sector => s!"{error.name} \x7b sector: {sector} \x7d"
  | device => error.name

end BlockError

namespace FaultError

def name : FaultError → String
  | noSuchProcess => "NoSuchProcess"
  | kernelAddress => "KernelAddress"
  | permissionDenied => "PermissionDenied"
  | beyondStack => "BeyondStack"
  | unbacked => "Unbacked"
  | outOfFrames => "OutOfFrames"
  | swapFull => "SwapFull"
  | io => "Io"

def message : FaultError → String
  | noSuchProcess => "no address space"
  | kernelAddress => "kernel address"
  | permissionDenied => "write to read-only page"
  | beyondStack => "access below the stack pointer"
  | unbacked => "no backing for page"
  | outOfFrames => "out of frames"
  | swapFull => "swap is full"
  | io => "backing store i/o error"

def debugText (error : FaultError) : String :=
  error.name

end FaultError

namespace VmError

def name : VmError → String
  | outOfFrames => "OutOfFrames"
  | swapFull => "SwapFull"
  | io _ => "Io"
  | shortWrite => "ShortWrite"
  | nullAddress => "NullAddress"
  | misaligned _ => "Misaligned"
  | invalidLength => "InvalidLength"
  | emptyFile => "EmptyFile"
  | overlap _ => "Overlap"
  | noSuchProcess _ => "NoSuchProcess"
  | processExists _ => "ProcessExists"
  | noSuchMapping _ => "NoSuchMapping"
  | fault _ => "Fault"

def message : VmError → String
  | outOfFrames => "out of physical frames"
  | swapFull => "swap is full"
  | io cause => s!"swap i/o error: {cause.message}"
  | shortWrite => "short write to backing file"
  | nullAddress => "cannot map at address zero"
  | misaligned address => s!"address {address.text} is not page-aligned"
  | invalidLength => "invalid mapping length"
  | emptyFile => "cannot map an empty file"
  | overlap page => s!"page {page.debugText} is already in use"
  | noSuchProcess process => s!"no address space for {process.text}"
  | processExists process => s!"{process.text} already has an address space"
  | noSuchMapping mapping => s!"no mapping {mapping.text}"
  | fault cause => s!"unresolved page fault: {cause.message}"

def debugText (error : VmError) : String :=
  match error with
  | io cause => s!"{error.name}({cause.debugText})"
  | misaligned address => s!"{error.name}({address.debugText})"
  | overlap page => s!"{error.name}({page.debugText})"
  | noSuchProcess process => s!"{error.name}({process.debugText})"
  | processExists process => s!"{error.name}({process.debugText})"
  | noSuchMapping mapping => s!"{error.name}({mapping.debugText})"
  | fault cause => s!"{error.name}({cause.debugText})"
  | _ => error.name

/-- The fault error reported when resolving a fault stops at this error. Every
failure of a backing store counts as an input or output error. -/
def toFaultError : VmError → FaultError
  | outOfFrames => .outOfFrames
  | swapFull => .swapFull
  | noSuchProcess _ => .noSuchProcess
  | fault cause => cause
  | _ => .io

end VmError
end DemandPaging
