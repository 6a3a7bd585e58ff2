import DemandPaging.Violation

/-!
Arithmetic on addresses and numbers. Sums and differences are checked as machine
words first and validated for the architecture after that; a number's start is
the address of the first byte of its page or frame.
-/

namespace DemandPaging

namespace Address

variable {kind : AddressKind}

/-- The address with this value, if the architecture accepts it. -/
def new (arch : Architecture) (value : Nat) : Checked (Address kind) :=
  if arch.Accepts kind value then .ok ⟨value⟩ else .error (.invalidAddress kind)

def add (arch : Architecture) (address : Address kind) (distance : Nat) :
    Checked (Address kind) := do
  new arch (← Word.add address.value distance)

def sub (arch : Architecture) (address : Address kind) (distance : Nat) :
    Checked (Address kind) := do
  new arch (← Word.sub address.value distance)

/-- Distance from `other` up to `address`. -/
def diff (address other : Address kind) : Checked Nat :=
  Word.sub address.value other.value

def isAligned (address : Address kind) (alignment : Nat) : Checked Bool := do
  require alignment.isPowerOfTwo .alignmentNotPowerOfTwo
  return address.value % alignment == 0

/-- The nearest multiple of `alignment` at or below the address, which is not
validated again. -/
def alignDown (address : Address kind) (alignment : Nat) : Checked (Address kind) := do
  require alignment.isPowerOfTwo .alignmentNotPowerOfTwo
  return ⟨address.value - address.value % alignment⟩

end Address

namespace Number

variable {kind : NumberKind}

def add (number : Number kind) (distance : Nat) : Checked (Number kind) := do
  return ⟨← Word.add number.value distance⟩

def sub (number : Number kind) (distance : Nat) : Checked (Number kind) := do
  return ⟨← Word.sub number.value distance⟩

/-- How far `number` lies above `other`. -/
def diff (number other : Number kind) : Checked Nat :=
  Word.sub number.value other.value

def pageStart (arch : Architecture) (page : PageNumber) : Checked VirtualAddress := do
  Address.new arch (← Word.mul page.value pageSize)

def frameStart (arch : Architecture) (frame : FrameNumber) : Checked PhysicalAddress := do
  Address.new arch (← Word.mul frame.value pageSize)

end Number
end DemandPaging
