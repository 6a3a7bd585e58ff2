/-!
How a frame is asked for.
-/

namespace DemandPaging

/-- Demands on a frame that is acquired. -/
structure FrameRequest where
  /-- The frame is to be filled with zeros. -/
  zeroed : Bool := false
  /-- Having no frame to give is a broken rule, not a failure. -/
  required : Bool := false
deriving DecidableEq, Repr

namespace FrameRequest

def union (a b : FrameRequest) : FrameRequest :=
  { zeroed := a.zeroed || b.zeroed, required := a.required || b.required }

/-- Whether `a` makes every demand that `b` makes. -/
def contains (a b : FrameRequest) : Bool :=
  (a.zeroed || !b.zeroed) && (a.required || !b.required)

/-- The demands as bits: 1 for a zeroed frame and 2 for a required one. -/
def bits (request : FrameRequest) : Nat :=
  (if request.zeroed then 1 else 0) + (if request.required then 2 else 0)

def debugText (request : FrameRequest) : String :=
  s!"AllocFlags({request.bits})"

end FrameRequest
end DemandPaging
