import DemandPaging.Address
import DemandPaging.Translation.Flags

/-!
The packed form of a translation: one machine word that holds the address of a
frame and the flags, in bits that the architecture keeps apart.
-/

namespace DemandPaging

/-- A leaf of the hardware's tables. -/
@[ext] structure PackedEntry (arch : Architecture) where
  word : BitVec 64
deriving DecidableEq, Repr

namespace Architecture

/-- The bits of a packed entry that hold the frame's address. -/
def addressMask : Architecture → BitVec 64
  | scaleModel => 0xFFFFF000
  | x86_64 => 0x000FFFFFFFFFF000

/-- The bits of a packed entry that hold flags. -/
def flagsMask : Architecture → BitVec 64
  | scaleModel => 0xFFF
  | x86_64 => 0xFFF0000000000FFF

end Architecture

namespace PackedEntry

variable {arch : Architecture}

/-- Packs the address of a frame's first byte with flags. -/
def pack (start : PhysicalAddress) (flags : PageFlags) : PackedEntry arch :=
  ⟨(BitVec.ofNat 64 start.value &&& arch.addressMask) ||| (flags.bits &&& arch.flagsMask)⟩

def flags (entry : PackedEntry arch) : PageFlags :=
  PageFlags.ofBits arch (entry.word &&& arch.flagsMask)

/-- The frame the entry points at, if the entry is present. -/
def frame (entry : PackedEntry arch) : Option FrameNumber :=
  if entry.flags.has .present then
    some (Address.frame ⟨(entry.word &&& arch.addressMask).toNat⟩)
  else
    none

def setFlags (entry : PackedEntry arch) (flags : PageFlags) : PackedEntry arch :=
  ⟨(entry.word &&& arch.addressMask) ||| (flags.bits &&& arch.flagsMask)⟩

end PackedEntry
end DemandPaging
