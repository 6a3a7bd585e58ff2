import DemandPaging.Architecture

/-!
The flag bits of a hardware translation. The processor sets the accessed and dirty
bits when a page is used; the other bits are fixed when the page is mapped.
-/

namespace DemandPaging

/-- The flags of one translation, as the bits of a machine word. -/
@[ext] structure PageFlags where
  bits : BitVec 64
deriving DecidableEq, Repr

namespace PageFlags

/-- Positions of the bits in use. -/
inductive Flag where
  | present
  | writable
  | user
  | accessed
  | dirty
deriving DecidableEq, Repr

namespace Flag

def position : Flag → Nat
  | present => 0
  | writable => 1
  | user => 2
  | accessed => 5
  | dirty => 6

end Flag

def empty : PageFlags :=
  ⟨0⟩

/-- The flags among the bits of a word. The words of `x86_64` hold an address in
bits 12 to 51, which are no flags. -/
def ofBits (arch : Architecture) (bits : BitVec 64) : PageFlags :=
  match arch with
  | .scaleModel => ⟨bits⟩
  | .x86_64 => ⟨bits &&& 0xFFF0000000000FFF⟩

def has (flags : PageFlags) (flag : Flag) : Bool :=
  flags.bits.getLsbD flag.position

def set (flags : PageFlags) (flag : Flag) (value : Bool) : PageFlags :=
  if value then
    ⟨flags.bits ||| BitVec.twoPow 64 flag.position⟩
  else
    ⟨flags.bits &&& ~~~BitVec.twoPow 64 flag.position⟩

/-- The flags of a user page that has just been mapped. -/
def userPage (writable : Bool) : PageFlags :=
  ((empty.set .present true).set .user true).set .writable writable

end PageFlags
end DemandPaging
