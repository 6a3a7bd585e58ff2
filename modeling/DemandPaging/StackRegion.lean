import DemandPaging.Address.Arithmetic

/-!
The stack region: the top of user space, into which stacks grow on demand. A
`StackConfig` is what a caller asks for; a `StackRegion` is one that has been
found to fit the architecture.
-/

namespace DemandPaging

/-- The size a stack may grow to, and how far below the stack pointer an access
may land and still grow it. -/
structure StackConfig where
  limit : Nat := 8 * 1024 * 1024
  slack : Nat := 32
deriving DecidableEq, Repr

/-- The stack region runs from `bottom` to the end of user space. -/
structure StackRegion where
  bottom : VirtualAddress
  slack : Nat
deriving DecidableEq, Repr

namespace StackConfig

/-- Lowest address of the stack region, whether or not the limit is sensible. -/
def bottom (arch : Architecture) (config : StackConfig) : Checked VirtualAddress := do
  Address.new arch (← Word.sub arch.userLimit config.limit)

/-- The region, if the limit is a non-zero multiple of the page size that leaves
room below the stack. -/
def region (arch : Architecture) (config : StackConfig) : Checked StackRegion := do
  require (0 < config.limit ∧ config.limit % pageSize = 0) .stackLimitUnaligned
  require (config.limit < arch.userLimit) .stackLimitTooLarge
  return { bottom := ← config.bottom arch, slack := config.slack }

end StackConfig

namespace StackRegion

def bottomPage (region : StackRegion) : PageNumber :=
  region.bottom.page

def contains (arch : Architecture) (region : StackRegion) (address : VirtualAddress) :
    Bool :=
  region.bottom.value ≤ address.value && address.isUser arch

/-- Lowest address at which an access may grow the stack. -/
def lowestAccess (region : StackRegion) (stackPointer : VirtualAddress) :
    VirtualAddress :=
  stackPointer.saturatingSub region.slack

end StackRegion
end DemandPaging
