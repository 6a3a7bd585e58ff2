import DemandPaging.Frame.Owners

/-!
Owners that follow a script: they say which pages are accessed and which are not to
be moved, and they note what they were asked.
-/

namespace DemandPaging

/-- A question put to the owners, with its answer. -/
inductive OwnerCall where
  | tested (owner : ProcessId) (page : PageNumber) (accessed : Bool)
  | evicted (owner : ProcessId) (page : PageNumber) (contents : Page) (granted : Bool)

structure OwnerScript where
  /-- Pages with a set accessed bit. -/
  accessed : List (ProcessId × PageNumber) := []
  /-- Pages whose eviction is refused, and why; the first entry for a page counts. -/
  refusals : List ((ProcessId × PageNumber) × VmError) := []
  /-- The questions asked so far, in order. -/
  calls : List OwnerCall := []

namespace OwnerScript

/-- Sets a page's accessed bit; false if it was set already. -/
def access (script : OwnerScript) (owner : ProcessId) (page : PageNumber) :
    Bool × OwnerScript :=
  if script.accessed.contains (owner, page) then
    (false, script)
  else
    (true, { script with accessed := (owner, page) :: script.accessed })

def refuse (script : OwnerScript) (owner : ProcessId) (page : PageNumber)
    (cause : VmError) : OwnerScript :=
  { script with refusals := ((owner, page), cause) :: script.refusals }

def permit (script : OwnerScript) (owner : ProcessId) (page : PageNumber) : OwnerScript :=
  { script with refusals := script.refusals.filter fun entry => entry.1 != (owner, page) }

def testAndClearAccessed (script : OwnerScript) (owner : ProcessId) (page : PageNumber) :
    Bool × OwnerScript :=
  let accessed := script.accessed.contains (owner, page)
  (accessed, { script with
    accessed := script.accessed.filter (· != (owner, page))
    calls := script.calls ++ [.tested owner page accessed] })

def evict (script : OwnerScript) (owner : ProcessId) (page : PageNumber) (contents : Page) :
    Except VmError Unit × OwnerScript :=
  let noted (granted : Bool) : OwnerScript :=
    { script with calls := script.calls ++ [.evicted owner page contents granted] }
  match script.refusals.lookup (owner, page) with
  | none => (.ok (), noted true)
  | some cause => (.error cause, noted false)

def owners : FrameOwners OwnerScript where
  testAndClearAccessed := testAndClearAccessed
  evict script owner page contents := return script.evict owner page contents

end OwnerScript
end DemandPaging
