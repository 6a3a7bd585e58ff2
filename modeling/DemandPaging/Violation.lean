import DemandPaging.Error

/-!
Broken rules of use. An operation that is called against its contract, or that
finds its own state inconsistent, stops with a `Violation`; failures that callers
must expect are values of `VmError` and never arise here. A `Checked` result is a
value or the first violation met on the way to it. An operation that does not stop
at all has no value either: `endless` stands for that.
-/

namespace DemandPaging

/-- An arithmetic operation on machine words. -/
inductive WordOperation where
  | add
  | subtract
  | multiply
deriving DecidableEq, Repr

/-- Why there is no value: the rule that was broken, or that there is no end. -/
inductive Violation where
  /-- The architecture does not accept the address. -/
  | invalidAddress (kind : AddressKind)
  | alignmentNotPowerOfTwo
  /-- The result does not fit in a machine word. -/
  | overflow (operation : WordOperation)
  | stackLimitUnaligned
  | stackLimitTooLarge
  /-- An array has no element at this index. -/
  | indexOutOfBounds (index length : Nat)
  | sectorSizeMismatch
  | storeSizeMismatch
  | loadSizeMismatch
  | slotHandedOutTwice
  | releaseOfFreeSlot (slot : SwapSlot)
  | loadOfFreeSlot (slot : SwapSlot)
  | foreignFrame (frame : FrameNumber)
  | frameFreedTwice (frame : FrameNumber)
  /-- Bytes up to this position were to be moved to or from one frame. -/
  | beyondFrame (stop : Nat)
  | noFrameAvailable (page : PageNumber) (owner : ProcessId) (cause : VmError)
  | frameAlreadyTracked
  | releaseOfUntrackedFrame (frame : FrameNumber)
  | untrackedFrameInQueue
  /-- The clock goes round and round, and every page is accessed whenever it is tested. -/
  | endless
  | alreadyMapped (page : PageNumber)
  | loadWithoutEntry (page : PageNumber)
  | alreadyResident (page : PageNumber)
  | notResident (page : PageNumber) (owner : ProcessId)
  | noMappingToEvictTo (page : PageNumber)
  | directoryNotEmpty
  | segmentUnaligned
  | pageOutsideMapping (page : PageNumber) (mapping : MappingId)
  | ownerWithoutSpace (owner : ProcessId)
  | faultedWhileResident (page : PageNumber) (process : ProcessId)
  | missingMapping
  | mappingNumberInUse (mapping : MappingId)
  | pageNotInstalled
  | spaceVanishedInFault
  | spaceVanishedInInstall
  | mappingOutlivedSpace
deriving DecidableEq, Repr

namespace WordOperation

def name : WordOperation → String
  | add => "add"
  | subtract => "subtract"
  | multiply => "multiply"

end WordOperation

namespace Violation

def message : Violation → String
  | invalidAddress .virtual => "address is not canonical"
  | invalidAddress .physical => "physical address exceeds maximum width"
  | alignmentNotPowerOfTwo => "alignment must be a power of two"
  | overflow operation => s!"attempt to {operation.name} with overflow"
  | stackLimitUnaligned => "stack limit must be a non-zero multiple of the page size"
  | stackLimitTooLarge => "stack limit exceeds user space"
  | indexOutOfBounds index length =>
      s!"index out of bounds: the len is {length} but the index is {index}"
  | sectorSizeMismatch => "assertion `left == right` failed"
  | storeSizeMismatch => "assertion `left == right` failed: swap writes whole pages"
  | loadSizeMismatch => "assertion `left == right` failed: swap reads whole pages"
  | slotHandedOutTwice => "assertion failed: !self.live[slot.0]"
  | releaseOfFreeSlot slot => s!"releasing swap slot {slot.value} that is not allocated"
  | loadOfFreeSlot slot => s!"loading swap slot {slot.value} that is not allocated"
  | foreignFrame frame => s!"{frame.debugText} does not belong to this pool"
  | frameFreedTwice frame => s!"{frame.debugText} freed twice"
  | beyondFrame stop => s!"range end index {stop} out of range for slice of length {pageSize}"
  | noFrameAvailable page owner cause =>
      s!"no frame available for {page.debugText} of {owner.text}: {cause.message}"
  | frameAlreadyTracked => "assertion failed: self.records[index].is_none()"
  | releaseOfUntrackedFrame frame => s!"releasing untracked {frame.debugText}"
  | untrackedFrameInQueue => "clock queue links to an untracked frame"
  | endless => "the clock does not stop"
  | alreadyMapped page => s!"{page.debugText} is already mapped"
  | loadWithoutEntry page => s!"faulting in {page.debugText} without an entry"
  | alreadyResident page => s!"{page.debugText} is already resident"
  | notResident page owner => s!"{page.debugText} of {owner.text} is not resident"
  | noMappingToEvictTo page => s!"{page.debugText} has no mapping to evict to"
  | directoryNotEmpty => "assertion failed: self.directory.is_empty()"
  | segmentUnaligned => "assertion failed: segment.address.is_aligned(PAGE_SIZE)"
  | pageOutsideMapping page mapping =>
      s!"{page.debugText} is outside mapping {mapping.text}"
  | ownerWithoutSpace owner => s!"frame owner {owner.text} has no address space"
  | faultedWhileResident page process =>
      s!"{page.debugText} of {process.text} faulted while resident"
  | missingMapping => "file-backed page refers to a missing mapping"
  | mappingNumberInUse _ => "assertion failed: previous.is_none()"
  | pageNotInstalled => "assertion failed: installed"
  | spaceVanishedInFault => "address space vanished while resolving a fault"
  | spaceVanishedInInstall => "address space vanished while installing a page"
  | mappingOutlivedSpace => "mapping outlived its address space"

end Violation

/-- A value, or the first rule broken on the way to it. -/
abbrev Checked (α : Type) := Except Violation α

/-- Stops with the violation unless the condition holds. -/
def require (condition : Prop) [Decidable condition] (violation : Violation) :
    Checked Unit :=
  if condition then .ok () else .error violation

namespace Word

/-- Addition of machine words, refused when the sum does not fit. -/
def add (a b : Nat) : Checked Nat :=
  if a + b < wordLimit then .ok (a + b) else .error (.overflow .add)

/-- Subtraction of machine words, refused below zero. -/
def sub (a b : Nat) : Checked Nat :=
  if b ≤ a then .ok (a - b) else .error (.overflow .subtract)

theorem sub_eq {a b : Nat} (enough : b ≤ a) : sub a b = .ok (a - b) :=
  if_pos enough

/-- Multiplication of machine words, refused when the product does not fit. -/
def mul (a b : Nat) : Checked Nat :=
  if a * b < wordLimit then .ok (a * b) else .error (.overflow .multiply)

/-- Addition of machine words, `none` when the sum does not fit. -/
def add? (a b : Nat) : Option Nat :=
  if a + b < wordLimit then some (a + b) else none

end Word
end DemandPaging
