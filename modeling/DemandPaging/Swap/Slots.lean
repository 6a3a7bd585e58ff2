import DemandPaging.Violation

/-!
Allocation of swap slots. The slot released last is handed out first; when none has
been released, the lowest slot never handed out is. So the slots ever in use are an
initial stretch of the device, as long as its peak use.
-/

namespace DemandPaging

structure SlotAllocator where
  /-- Slots below `tail` have been handed out at least once. -/
  tail : Nat := 0
  /-- Slots that have been given back, the latest first. -/
  free : List SwapSlot := []
  /-- For every slot, whether it is allocated. -/
  live : Array Bool
  /-- How many slots are allocated. -/
  used : Nat := 0
deriving DecidableEq, Repr

namespace SlotAllocator

/-- The allocator of so many slots, all free. -/
def new (capacity : Nat) : SlotAllocator :=
  { live := Array.replicate capacity false }

def capacity (slots : SlotAllocator) : Nat :=
  slots.live.size

def isAllocated (slots : SlotAllocator) (slot : SwapSlot) : Bool :=
  slots.live.getD slot.value false

/-- The slot that is handed out next, if there is one, and what is left once it is gone. -/
def next? (slots : SlotAllocator) : Option (SwapSlot × SlotAllocator) :=
  match slots.free with
  | slot :: free => some (slot, { slots with free })
  | [] =>
    if slots.tail < slots.capacity then
      some (⟨slots.tail⟩, { slots with tail := slots.tail + 1 })
    else
      none

/-- Marks a slot as allocated, which it must not be. -/
def occupy (slots : SlotAllocator) (slot : SwapSlot) : Checked SlotAllocator :=
  match slots.live[slot.value]? with
  | none => .error (.indexOutOfBounds slot.value slots.live.size)
  | some live => do
    require (live = false) .slotHandedOutTwice
    return { slots with
      live := slots.live.setIfInBounds slot.value true
      used := slots.used + 1 }

/-- Takes a slot, unless every slot is in use. -/
def allocate (slots : SlotAllocator) : Checked (Option (SwapSlot × SlotAllocator)) :=
  match slots.next? with
  | none => return none
  | some (slot, slots) => return some (slot, ← slots.occupy slot)

def release (slots : SlotAllocator) (slot : SwapSlot) : Checked SlotAllocator := do
  require (slots.isAllocated slot) (.releaseOfFreeSlot slot)
  return { slots with
    live := slots.live.setIfInBounds slot.value false
    used := ← Word.sub slots.used 1
    free := slot :: slots.free }

end SlotAllocator
end DemandPaging
