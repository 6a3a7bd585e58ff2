import DemandPaging.Frame.Table

/-!
The second-chance clock, which takes frames away. The hand goes round the ring,
clears the accessed bits it finds set, and stops at the first page whose bit was
clear. If the page's owner refuses to move it, the hand steps past it and the search
goes on, until as many owners have refused as the ring has frames, twice over.
-/

namespace DemandPaging
namespace FrameTable

variable {arch : Architecture} {σ : Type}

/-- Tests the page at a place of the ring. If it was accessed the search goes on at the
next place, and otherwise it ends here. -/
def test (owners : FrameOwners σ) (table : FrameTable arch) (index : FrameIndex) (state : σ) :
    Run (FrameIndex × σ ⊕ FrameIndex × σ) := do
  let record ← table.record index
  let (accessed, state) := owners.testAndClearAccessed state record.owner record.page
  if accessed then
    Run.log (.secondChance record.page record.owner)
    return .inl (record.next, state)
  else
    return .inr (index, state)

/-- Looks for a page that was not accessed, from a place of the ring on. For owners that
report a page clear after clearing it, the search ends within the rounds written out. -/
def scan (owners : FrameOwners σ) (table : FrameTable arch) (index : FrameIndex) (state : σ) :
    Run (FrameIndex × σ) :=
  Run.iterate (fun (index, state) => table.test owners index state) (table.queued + 1)
    (index, state)

/-- Takes a frame away from its owner, asking at most `attempts` times. Without success,
the answer is the last refusal, and only the hand has moved. -/
def evictWithin (owners : FrameOwners σ) (attempts : Nat) (table : FrameTable arch)
    (state : σ) : Run (Except VmError FrameNumber × FrameTable arch × σ) :=
  match table.handIndex with
  | none => return (.error .outOfFrames, table, state)
  | some hand => do
    let (victim, state) ← table.scan owners hand state
    let record ← table.record victim
    let frame := table.pool.frameAt victim
    let contents ← table.bytes frame
    let (result, state) ← owners.evict state record.owner record.page contents
    match result with
    | .ok () =>
      let table ← FrameTable.drop { table with handIndex := some victim } victim
      Run.log (.evicted frame record.page record.owner)
      return (.ok frame, { table with evictions := table.evictions + 1 }, state)
    | .error cause =>
      Run.log (.evictionRefused record.page record.owner cause)
      let table := { table with handIndex := some record.next }
      match attempts with
      | 0 => Run.violate (.overflow .subtract)
      | 1 => return (.error cause, table, state)
      | attempts + 2 => table.evictWithin owners (attempts + 1) state

/-- Takes a frame away from its owner, unless as many requests are refused as make two
rounds of the ring. -/
def evict (owners : FrameOwners σ) (table : FrameTable arch) (state : σ) :
    Run (Except VmError FrameNumber × FrameTable arch × σ) :=
  table.evictWithin owners (2 * table.queued) state

/-- Obtains a frame for an owner's page: a free one if there is any, otherwise one
taken away. It cannot be taken away again until it is marked not referenced. -/
def acquire (owners : FrameOwners σ) (table : FrameTable arch) (state : σ)
    (request : FrameRequest) (owner : ProcessId) (page : PageNumber) :
    Run (Except VmError FrameNumber × FrameTable arch × σ) := do
  match table.pool.allocate with
  | some (frame, pool) =>
    return (.ok frame, ← track { table with pool } frame request owner page, state)
  | none =>
    let (result, table, state) ← table.evict owners state
    match result with
    | .ok frame => return (.ok frame, ← table.track frame request owner page, state)
    | .error cause =>
      if request.required then
        Run.violate (.noFrameAvailable page owner cause)
      else
        return (.error cause, table, state)

end FrameTable
end DemandPaging
