import DemandPaging.Contents
import DemandPaging.Run

/-!
The owners of resident pages, as the frame table sees them. Choosing a frame to take
away needs the accessed bit of a page, and taking it away needs the page's contents
moved to where they can be found again; both are known to the owners alone.
-/

namespace DemandPaging

/-- What owners with states in `σ` do when the frame table asks. -/
structure FrameOwners (σ : Type) where
  /-- Reads and clears the accessed bit of an owner's page. -/
  testAndClearAccessed : σ → ProcessId → PageNumber → Bool × σ
  /-- Moves an owner's page with these contents out of its frame, or refuses. -/
  evict : σ → ProcessId → PageNumber → Page → Run (Except VmError Unit × σ)

end DemandPaging
