import DemandPaging.Address

/-!
Page faults as the trap handler delivers them.
-/

namespace DemandPaging

/-- An access the processor could not carry out. -/
structure PageFault where
  address : VirtualAddress
  write : Bool
  /-- The user stack pointer when the fault happened. -/
  stackPointer : VirtualAddress
deriving DecidableEq, Repr

namespace PageFault

/-- Reads the kind of access off the processor's error code, whose bit 1 is set
for a write. -/
def ofErrorCode (address : VirtualAddress) (code : Nat) (stackPointer : VirtualAddress) :
    PageFault :=
  { address, write := code.testBit 1, stackPointer }

def debugText (fault : PageFault) : String :=
  s!"PageFault \x7b address: {fault.address.debugText}, write: {fault.write}, " ++
    s!"stack_pointer: {fault.stackPointer.debugText} \x7d"

end PageFault
end DemandPaging
