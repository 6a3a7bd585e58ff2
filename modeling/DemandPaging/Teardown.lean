/-!
Counts of what is handed back when an address space goes away.
-/

namespace DemandPaging

/-- What destroying an address space frees: frames of resident pages, and slots of
swapped ones. -/
structure Released where
  frames : Nat := 0
  swapSlots : Nat := 0
deriving DecidableEq, Repr

/-- What the exit of a process frees: its mappings, and then what remains of its
address space. -/
structure Teardown where
  mappings : Nat
  frames : Nat
  swapSlots : Nat
deriving DecidableEq, Repr

namespace Released

def debugText (released : Released) : String :=
  s!"Released \x7b frames: {released.frames}, swap_slots: {released.swapSlots} \x7d"

end Released

namespace Teardown

def debugText (teardown : Teardown) : String :=
  s!"Teardown \x7b mappings: {teardown.mappings}, frames: {teardown.frames}, " ++
    s!"swap_slots: {teardown.swapSlots} \x7d"

end Teardown
end DemandPaging
