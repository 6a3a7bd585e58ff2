import DemandPaging.Address
import DemandPaging.Violation

/-!
Segments: regions of a file to be mapped into an address space.
-/

namespace DemandPaging

/-- A region of memory whose first `fileLength` bytes come from a file, from
`offset` on, and whose next `zeroLength` bytes read as zero. -/
structure Segment where
  file : FileId
  address : VirtualAddress
  offset : Nat := 0
  fileLength : Nat
  zeroLength : Nat
  writable : Bool := true
  /-- The file is never written: changed pages are kept in swap. -/
  static : Bool := false
deriving DecidableEq, Repr

namespace Segment

/-- The writable region of `length` bytes at `address` over a whole file; bytes
past the end of the file read as zero. -/
def wholeFile (file : FileId) (size : Nat) (address : VirtualAddress) (length : Nat) :
    Segment where
  file := file
  address := address
  fileLength := min length size
  zeroLength := length - min length size

/-- Length of the region in bytes, if it fits in a machine word. -/
def length? (segment : Segment) : Option Nat :=
  Word.add? segment.fileLength segment.zeroLength

end Segment
end DemandPaging
