import DemandPaging.Proofs.Tenants
import DemandPaging.Proofs.Victim

/-!
What a search asks. Owners whose pages stay clear once they were reported accessed are asked a
bounded number of times: a page is reported accessed at most once, so each round of the ring
after the first one uses up attempts.
-/

namespace DemandPaging

variable {arch : Architecture} {σ α β : Type} {tolerated : Violation → Prop}

def testsIn (calls : List OwnerCall) : Nat :=
  calls.countP fun
    | .tested .. => true
    | .evicted .. => false

def requestsIn (calls : List OwnerCall) : Nat :=
  calls.countP fun
    | .tested .. => false
    | .evicted .. => true

/-- Whether an answer is that this page was accessed. -/
def OwnerCall.reports (owner : ProcessId × PageNumber) : OwnerCall → Bool
  | .tested process page accessed => accessed && (process, page) == owner
  | .evicted .. => false

def reported (calls : List OwnerCall) (owner : ProcessId × PageNumber) : Bool :=
  calls.any (OwnerCall.reports owner)

def timesReported (calls : List OwnerCall) (owner : ProcessId × PageNumber) : Nat :=
  calls.countP (OwnerCall.reports owner)

section Calls

variable (calls : List OwnerCall) (owner : ProcessId) (page : PageNumber)

theorem testsIn_tested (accessed : Bool) :
    testsIn (calls ++ [.tested owner page accessed]) = testsIn calls + 1 :=
  List.countP_append

theorem testsIn_evicted (contents : Page) (granted : Bool) :
    testsIn (calls ++ [.evicted owner page contents granted]) = testsIn calls :=
  List.countP_append

theorem requestsIn_tested (accessed : Bool) :
    requestsIn (calls ++ [.tested owner page accessed]) = requestsIn calls :=
  List.countP_append

theorem requestsIn_evicted (contents : Page) (granted : Bool) :
    requestsIn (calls ++ [.evicted owner page contents granted]) = requestsIn calls + 1 :=
  List.countP_append

@[simp] theorem reported_concat (call : OwnerCall) (other : ProcessId × PageNumber) :
    reported (calls ++ [call]) other = (reported calls other || call.reports other) := by
  simp [reported]

theorem timesReported_concat (call : OwnerCall) (other : ProcessId × PageNumber) :
    timesReported (calls ++ [call]) other =
      timesReported calls other + if call.reports other = true then 1 else 0 := by
  simp [timesReported, List.countP_singleton]

theorem timesReported_eq_zero {calls : List OwnerCall} {other : ProcessId × PageNumber}
    (never : reported calls other = false) : timesReported calls other = 0 := by
  rw [timesReported, List.countP_eq_zero]
  exact fun call member => Bool.not_eq_true _ ▸ List.any_eq_false.mp never call member

end Calls

/-- These owners, with a record of the questions put to them. -/
def FrameOwners.noting (owners : FrameOwners σ) : FrameOwners (σ × List OwnerCall) where
  testAndClearAccessed noted owner page :=
    let answer := owners.testAndClearAccessed noted.1 owner page
    (answer.1, answer.2, noted.2 ++ [.tested owner page answer.1])
  evict noted owner page contents := do
    let answer ← owners.evict noted.1 owner page contents
    return (answer.1, answer.2, noted.2 ++ [.evicted owner page contents answer.1.isOk])

def unnoted (answer : α × β × σ × List OwnerCall) : α × β × σ :=
  (answer.1, answer.2.1, answer.2.2.1)

/-- Without the record of the questions, the one is the other. -/
def Forgets (noted : α × σ × List OwnerCall) (plain : α × σ) : Prop :=
  (noted.1, noted.2.1) = plain

namespace FrameTable

variable {table : FrameTable arch} {owners : FrameOwners σ}

section Noting

theorem test_noting {noted : FrameIndex × σ × List OwnerCall} {plain : FrameIndex × σ}
    (same : Forgets noted plain) :
    (table.test owners.noting noted.1 noted.2).Alike (Sum.LiftRel Forgets Forgets)
      (table.test owners plain.1 plain.2) := by
  obtain ⟨index, state, calls⟩ := noted
  cases same
  unfold test
  refine .bind (.lift (.refl (table.record index))) ?_
  rintro record _ rfl
  cases tested : owners.testAndClearAccessed state record.owner record.page with
  | mk again cleared =>
      simp only [FrameOwners.noting, tested]
      cases again with
      | false => exact .pure (.inr rfl)
      | true => exact .bind .log fun _ _ _ => .pure (.inl rfl)

theorem scan_noting (index : FrameIndex) (state : σ) (calls : List OwnerCall) :
    (table.scan owners.noting index (state, calls)).Alike Forgets (table.scan owners index state) :=
  .iterate Forgets (fun _ _ => test_noting) _ _ rfl

theorem evictWithin_noting (attempts : Nat) (state : σ) (calls : List OwnerCall) :
    (table.evictWithin owners.noting attempts (state, calls)).Alike
      (fun noted plain => unnoted noted = plain) (table.evictWithin owners attempts state) := by
  induction attempts using Nat.strong_induction_on generalizing table state calls with
  | _ attempts ih =>
      unfold evictWithin
      cases table.handIndex with
      | none => exact .pure rfl
      | some hand =>
          refine .bind (scan_noting hand state calls) ?_
          rintro ⟨victim, searched, asked⟩ _ rfl
          refine .bind (.lift (.refl (table.record victim))) ?_
          rintro record _ rfl
          refine .bind (.lift (.refl (table.bytes (table.pool.frameAt victim)))) ?_
          rintro contents _ rfl
          simp only [FrameOwners.noting, bind_assoc, pure_bind]
          refine .bind (.refl (owners.evict searched record.owner record.page contents)) ?_
          rintro ⟨result, moved⟩ _ rfl
          cases result with
          | ok _ =>
              refine .bind (.lift (.refl _)) ?_
              rintro dropped _ rfl
              exact .bind .log fun _ _ _ => .pure rfl
          | error cause =>
              refine .bind .log fun _ _ _ => ?_
              obtain _ | _ | fewer := attempts
              · exact .violate _
              · exact .pure rfl
              · exact ih (fewer + 1) (Nat.lt_succ_self _) ..

/-- Keeping a record changes nothing else about obtaining a frame. -/
theorem acquire_noting (state : σ) (calls : List OwnerCall) (request : FrameRequest)
    (owner : ProcessId) (page : PageNumber) :
    unnoted <$> table.acquire owners.noting (state, calls) request owner page =
      table.acquire owners state request owner page := by
  refine Run.Alike.map_eq ?_
  unfold acquire
  split
  · refine .bind (.lift (.refl _)) ?_
    rintro tracked _ rfl
    exact .pure rfl
  · refine .bind (evictWithin_noting _ state calls) ?_
    rintro ⟨result, left, moved, asked⟩ _ rfl
    cases result with
    | ok frame =>
        refine .bind (.lift (.refl _)) ?_
        rintro tracked _ rfl
        exact .pure rfl
    | error cause =>
        dsimp only [unnoted]
        split
        · exact .violate _
        · exact .pure rfl

end Noting

/-- A frame that may be taken away, and the page in it. -/
def Queues (table : FrameTable arch) (frame : FrameNumber) (owner : ProcessId × PageNumber) :
    Prop :=
  ∃ record, table.find? frame = some record ∧ record.referenced = false ∧
    (record.owner, record.page) = owner

theorem IsRing.queues_iff {ring : List FrameNumber} (isRing : table.IsRing ring)
    {frame : FrameNumber} {owner : ProcessId × PageNumber} :
    table.Queues frame owner ↔ frame ∈ ring ∧ table.ownerOf frame = some owner := by
  constructor
  · rintro ⟨record, found, queued, rfl⟩
    exact ⟨(isRing.mem_iff found).mpr queued, ownerOf_of_find? found⟩
  · rintro ⟨member, owned⟩
    obtain ⟨record, found⟩ := FrameTable.mem_iff.mp (isRing.mem member)
    exact ⟨record, found, (isRing.mem_iff found).mp member,
      Option.some.inj ((ownerOf_of_find? found).symm.trans owned)⟩

/-- The owners can come to this state while the table looks for a frame: it asks whether its
pages were accessed, and asks to have them moved, which is refused. -/
inductive Asked (table : FrameTable arch) (owners : FrameOwners σ) (start : σ) : σ → Prop
  | start : Asked table owners start start
  | test {state : σ} {frame : FrameNumber} {owner : ProcessId × PageNumber}
      (queues : table.Queues frame owner) (asked : Asked table owners start state) :
      Asked table owners start (owners.testAndClearAccessed state owner.1 owner.2).2
  | refuse {state refused : σ} {frame : FrameNumber} {owner : ProcessId × PageNumber}
      {cause : VmError} (queues : table.Queues frame owner)
      (asked : Asked table owners start state)
      (refuses : (owners.evict state owner.1 owner.2 (table.pool.page frame)).Yields
        (.error cause, refused)) :
      Asked table owners start refused

theorem Asked.trans {start state later : σ} (asked : table.Asked owners start state)
    (more : table.Asked owners state later) : table.Asked owners start later := by
  induction more with
  | start => exact asked
  | test queues _ ih => exact .test queues ih
  | refuse queues _ refuses ih => exact .refuse queues ih refuses

/-- While the table looks for a frame, a page that was reported accessed is reported clear by
every later test. -/
def Settles (table : FrameTable arch) (owners : FrameOwners σ) (start : σ) : Prop :=
  ∀ frame owner state later, table.Queues frame owner → table.Asked owners start state →
    (owners.testAndClearAccessed state owner.1 owner.2).1 = true →
      table.Asked owners (owners.testAndClearAccessed state owner.1 owner.2).2 later →
        (owners.testAndClearAccessed later owner.1 owner.2).1 = false

theorem Settles.later {start asked : σ} (settles : table.Settles owners start)
    (path : table.Asked owners start asked) : table.Settles owners asked :=
  fun frame owner state later queues more => settles frame owner state later queues (path.trans more)

/-- While the table looks for a frame, the owners answer when they are asked to move a page. -/
def Responds (tolerated : Violation → Prop) (table : FrameTable arch) (owners : FrameOwners σ)
    (start : σ) : Prop :=
  ∀ frame owner state, table.Queues frame owner → table.Asked owners start state →
    (owners.evict state owner.1 owner.2 (table.pool.page frame)).Satisfies tolerated fun _ => True

theorem Responds.any (table : FrameTable arch) (owners : FrameOwners σ) (start : σ) :
    table.Responds (fun _ => True) owners start :=
  fun _ _ _ _ _ => Run.Satisfies.any

/-- Owners settle who take a page that was tested out of a set of accessed pages, which grows
neither by testing others nor by refusals. -/
theorem settles_of_accessed (accessed : σ → ProcessId × PageNumber → Bool)
    (tests : ∀ (state : σ) (owner : ProcessId × PageNumber),
      (owners.testAndClearAccessed state owner.1 owner.2).1 = accessed state owner)
    (clears : ∀ (state : σ) (owner other : ProcessId × PageNumber),
      accessed (owners.testAndClearAccessed state owner.1 owner.2).2 other =
        if other = owner then false else accessed state other)
    (refuses : ∀ (state : σ) (owner : ProcessId × PageNumber) (contents : Page),
      (owners.evict state owner.1 owner.2 contents).Satisfies (fun _ => True)
        fun (result, after) => result.isOk = false → accessed after = accessed state)
    (start : σ) : table.Settles owners start := by
  intro frame owner state later _ _ _ asked
  rw [tests]
  induction asked with
  | start => rw [clears, if_pos rfl]
  | test _ _ ih =>
      rw [clears]
      split
      · rfl
      · exact ih
  | refuse _ _ refused ih => rw [(refuses _ _ _).of_yields refused rfl, ih]

end FrameTable

theorem OwnerScript.owners_settle (table : FrameTable arch) (script : OwnerScript) :
    table.Settles OwnerScript.owners script := by
  have steady := OwnerScript.owners_steady
  refine FrameTable.settles_of_accessed _ steady.tests (fun state owner other => ?_)
    (fun state owner contents => ?_) script
  · exact (congrFun (steady.clears state owner) other).trans (Function.update_apply ..)
  · refine .mono ((steady.evicts state owner contents).weaken fun _ _ => trivial) ?_
    rintro ⟨result, after⟩ ⟨same, _⟩ _
    exact same

namespace Tenants

theorem evict_refused (tenants : Tenants arch) (owner : ProcessId) (page : PageNumber)
    (contents : Page) :
    (tenants.evict owner page contents).Satisfies (fun _ => True) fun (result, after) =>
      result.isOk = false → after.spaces = tenants.spaces := by
  have toSwap (space : AddressSpace arch) :
      (tenants.evictToSwap owner space page contents).Satisfies (fun _ => True)
        fun (result, after) => result.isOk = false → after.spaces = tenants.spaces := by
    unfold evictToSwap
    refine .bind .any ?_
    rintro ⟨result, swap⟩ _
    cases result with
    | ok slot => exact .bind (.lift .any) fun _ _ => .pure nofun
    | error cause => exact .pure fun _ => rfl
  have toFile (space : AddressSpace arch) (mapping : Mapping) :
      (tenants.evictToFile owner space mapping page contents).Satisfies (fun _ => True)
        fun (result, after) => result.isOk = false → after.spaces = tenants.spaces := by
    unfold evictToFile
    split
    · refine .bind (.lift .any) ?_
      rintro ⟨result, files⟩ _
      cases result with
      | ok _ => exact .bind (.lift .any) fun _ _ => .pure nofun
      | error cause => exact .pure fun _ => rfl
    · rw [pure_bind]
      exact .bind (.lift .any) fun _ _ => .pure nofun
  unfold evict
  split
  · trivial
  · split
    · exact toSwap _
    · refine .bind (.lift .any) fun filed _ => ?_
      split
      · exact toFile _ _
      · exact toSwap _

theorem owners_settle (table : FrameTable arch) (tenants : Tenants arch) :
    table.Settles owners tenants := by
  refine FrameTable.settles_of_accessed accessedAt
    (fun tenants owner => (tenants.testAndClearAccessed_accessedAt owner).1)
    (fun tenants owner => (tenants.testAndClearAccessed_accessedAt owner).2)
    (fun tenants owner contents => ?_) tenants
  refine .mono (tenants.evict_refused owner.1 owner.2 contents) ?_
  rintro ⟨result, after⟩ same refused
  funext page
  unfold accessedAt
  rw [same refused]

end Tenants

namespace FrameTable

variable {table : FrameTable arch} {owners : FrameOwners σ}

section Counting

variable {ring : List FrameNumber} {start : σ} {noted : σ × List OwnerCall} {frame : FrameNumber}
  {owner : ProcessId × PageNumber}

/-- The questions asked so far led the owners here, and each page that was reported accessed was
so once, and is reported clear from now on. -/
structure Noted (table : FrameTable arch) (owners : FrameOwners σ) (start : σ)
    (noted : σ × List OwnerCall) : Prop where
  asked : table.Asked owners start noted.1
  silent : ∀ frame owner later, table.Queues frame owner → reported noted.2 owner = true →
    table.Asked owners noted.1 later →
      (owners.testAndClearAccessed later owner.1 owner.2).1 = false
  once : ∀ frame owner, table.Queues frame owner → timesReported noted.2 owner ≤ 1

theorem Noted.refl (table : FrameTable arch) (owners : FrameOwners σ) (state : σ) :
    table.Noted owners state (state, []) :=
  ⟨.start, by rintro _ _ _ _ ⟨⟩, fun _ _ _ => Nat.zero_le 1⟩

/-- A page that is found accessed was not so before. -/
theorem Noted.first (before : table.Noted owners start noted) (queues : table.Queues frame owner)
    (again : (owners.testAndClearAccessed noted.1 owner.1 owner.2).1 = true) :
    reported noted.2 owner = false := by
  by_contra told
  have silent := before.silent frame owner noted.1 queues (Bool.not_eq_false _ ▸ told) .start
  rw [again] at silent
  cases silent

theorem Noted.test (settles : table.Settles owners start) (before : table.Noted owners start noted)
    (queues : table.Queues frame owner) :
    table.Noted owners start (owners.noting.testAndClearAccessed noted owner.1 owner.2).2 := by
  refine ⟨.test queues before.asked, ?_, ?_⟩
  · intro other page later queues' told asked
    have told : reported noted.2 page = true ∨
        (owners.testAndClearAccessed noted.1 owner.1 owner.2).1 = true ∧ owner = page := by
      simpa [FrameOwners.noting, OwnerCall.reports] using told
    obtain told | ⟨again, rfl⟩ := told
    · exact before.silent other page later queues' told (.trans (.test queues .start) asked)
    · exact settles frame owner noted.1 later queues before.asked again asked
  · intro other page queues'
    refine Nat.le_trans (Nat.le_of_eq (timesReported_concat ..)) ?_
    split
    · rename_i told
      have report : (owners.testAndClearAccessed noted.1 owner.1 owner.2).1 = true ∧
          owner = page := by
        simpa [OwnerCall.reports] using told
      obtain ⟨again, rfl⟩ := report
      rw [timesReported_eq_zero (before.first queues again)]
    · exact before.once other page queues'

theorem Noted.refuse {cause : VmError} {refused : σ × List OwnerCall}
    (before : table.Noted owners start noted) (queues : table.Queues frame owner)
    (refuses : (owners.noting.evict noted owner.1 owner.2 (table.pool.page frame)).Yields
      (.error cause, refused)) :
    table.Noted owners start refused := by
  obtain ⟨⟨_, moved⟩, answers, same⟩ := Run.yields_bind.mp refuses
  cases same
  refine ⟨.refuse queues before.asked answers, ?_, ?_⟩
  · intro other page later queues' told asked
    refine before.silent other page later queues' ?_ (.trans (.refuse queues .start answers) asked)
    simpa [OwnerCall.reports] using told
  · intro other page queues'
    exact Nat.le_trans (Nat.le_of_eq (timesReported_concat ..)) (before.once other page queues')

theorem askedAmong_lt {frames : List FrameNumber}
    {ownerOf : FrameNumber → Option (ProcessId × PageNumber)} {calls : List OwnerCall}
    (member : frame ∈ frames) (owned : ownerOf frame = some owner)
    (first : reported calls owner = false) :
    askedAmong ownerOf (reported (calls ++ [.tested owner.1 owner.2 true])) frames <
      askedAmong ownerOf (reported calls) frames := by
  refine countP_lt member ?_ ?_ ?_
  · intro other _ still
    unfold pageIn at *
    cases held : ownerOf other with
    | none => rfl
    | some page =>
        rw [held, Option.any_some, Bool.not_eq_true', reported_concat, Bool.or_eq_false_iff]
          at still
        rw [Option.any_some, still.1, Bool.not_false]
  · rw [pageIn, owned, Option.any_some, first, Bool.not_false]
  · simp [pageIn, owned, OwnerCall.reports]

theorem askedAmong_quiet {frames : List FrameNumber}
    {ownerOf : FrameNumber → Option (ProcessId × PageNumber)} {calls : List OwnerCall}
    {call : OwnerCall} (quiet : ∀ owner, call.reports owner = false) :
    askedAmong ownerOf (reported (calls ++ [call])) frames =
      askedAmong ownerOf (reported calls) frames := by
  have same : reported (calls ++ [call]) = reported calls := by
    funext owner
    rw [reported_concat, quiet, Bool.or_false]
  rw [same]

theorem noting_answers (isRing : table.IsRing ring) (settles : table.Settles owners start)
    (responds : table.Responds tolerated owners start) :
    owners.noting.Answers tolerated table.ownerOf table.pool.page ring
      (table.Noted owners start) (fun _ _ => True)
      (fun noted => askedAmong table.ownerOf (reported noted.2) ring) := by
  refine ⟨fun noted _ => askedAmong_le_length .., ?_, ?_, ?_, fun _ _ _ _ => trivial⟩
  · intro frame owner noted member owned before
    exact before.test settles (isRing.queues_iff.mpr ⟨member, owned⟩)
  · intro frame owner noted member owned before again
    have queues := isRing.queues_iff.mpr ⟨member, owned⟩
    change askedAmong _ (reported (noted.2 ++ [.tested owner.1 owner.2
      (owners.testAndClearAccessed noted.1 owner.1 owner.2).1])) ring < _
    rw [show (owners.testAndClearAccessed noted.1 owner.1 owner.2).1 = true from again]
    exact askedAmong_lt member owned (before.first queues again)
  · intro frame owner noted member owned before
    have queues := isRing.queues_iff.mpr ⟨member, owned⟩
    have answered : (owners.noting.evict noted owner.1 owner.2 (table.pool.page frame)).Satisfies
        tolerated fun _ => True :=
      .bind (responds frame owner noted.1 queues before.asked) fun _ _ => .pure trivial
    refine .mono answered.yielding ?_
    rintro ⟨result, moved⟩ ⟨answers, _⟩
    cases result with
    | ok _ => trivial
    | error cause => exact before.refuse queues answers

theorem noting_test {noted cleared : σ × List OwnerCall} {again : Bool}
    (tested : owners.noting.testAndClearAccessed noted owner.1 owner.2 = (again, cleared)) :
    cleared.2 = noted.2 ++ [.tested owner.1 owner.2 again] := by
  cases tested
  rfl

theorem noting_evict {noted moved : σ × List OwnerCall} {contents : Page}
    {result : Except VmError Unit}
    (answers : (owners.noting.evict noted owner.1 owner.2 contents).Yields (result, moved)) :
    moved.2 = noted.2 ++ [.evicted owner.1 owner.2 contents result.isOk] := by
  obtain ⟨answer, _, same⟩ := Run.yields_bind.mp answers
  cases same
  rfl

/-- Each question of a search is a request to move a page, for which there are attempts, or the
test before one, or it reports a page accessed for the first time. -/
theorem sweep_counts (isRing : table.IsRing ring) (settles : table.Settles owners start)
    {order final : List FrameNumber} {attempts : Nat} {turns : List Turn}
    {result : Except VmError FrameNumber} {left : σ × List OwnerCall}
    (sweep : Sweep owners.noting table.ownerOf table.pool.page order attempts noted turns result
      final left)
    (before : table.Noted owners start noted) (inside : ∀ frame ∈ order, frame ∈ ring)
    (some_attempt : 0 < attempts) :
    requestsIn left.2 ≤ requestsIn noted.2 + attempts ∧
      testsIn left.2 + askedAmong table.ownerOf (reported left.2) ring + requestsIn noted.2 ≤
        testsIn noted.2 + askedAmong table.ownerOf (reported noted.2) ring + requestsIn left.2 := by
  have answers := noting_answers isRing settles (.any table owners start)
  have passed {frame : FrameNumber} {rest : List FrameNumber}
      (inside : ∀ other ∈ frame :: rest, other ∈ ring) : ∀ other ∈ rest ++ [frame], other ∈ ring :=
    fun other member => inside other (by simpa [or_comm] using member)
  -- a test that finds its page clear and the request after it
  have asked {frame : FrameNumber} {owner : ProcessId × PageNumber}
      {noted searched moved : σ × List OwnerCall} {result : Except VmError Unit}
      (tested : owners.noting.testAndClearAccessed noted owner.1 owner.2 = (false, searched))
      (answers : (owners.noting.evict searched owner.1 owner.2 (table.pool.page frame)).Yields
        (result, moved)) :
      requestsIn moved.2 = requestsIn noted.2 + 1 ∧ testsIn moved.2 = testsIn noted.2 + 1 ∧
        askedAmong table.ownerOf (reported moved.2) ring =
          askedAmong table.ownerOf (reported noted.2) ring := by
    rw [noting_evict answers, noting_test tested]
    refine ⟨?_, ?_, ?_⟩
    · rw [requestsIn_evicted, requestsIn_tested]
    · rw [testsIn_evicted, testsIn_tested]
    · rw [askedAmong_quiet fun _ => rfl, askedAmong_quiet fun _ => rfl]
  induction sweep with
  | @spare frame rest final attempts owner noted cleared left turns result owned tested _ ih =>
      have member := inside frame List.mem_cons_self
      have kept := answers.test frame owner noted member owned before
      have fewer := answers.clears frame owner noted member owned before
      rw [tested] at fewer kept
      have fewer := fewer rfl
      obtain ⟨requests, tests⟩ := ih kept (passed inside) some_attempt
      rw [noting_test tested] at requests tests fewer
      rw [requestsIn_tested] at requests tests
      rw [testsIn_tested] at tests
      omega
  | @refuse frame rest final attempts owner noted searched refused left turns cause result owned
      tested refuses _ ih =>
      have member := inside frame List.mem_cons_self
      have queues := isRing.queues_iff.mpr ⟨member, owned⟩
      have kept := answers.test frame owner noted member owned before
      rw [tested] at kept
      obtain ⟨request, test, same⟩ := asked tested refuses
      obtain ⟨requests, tests⟩ := ih (kept.refuse queues refuses) (passed inside) (by omega)
      omega
  | giveUp owned tested refuses =>
      obtain ⟨request, test, same⟩ := asked tested refuses
      omega
  | take owned tested moves =>
      obtain ⟨request, test, same⟩ := asked tested moves
      omega

theorem evict_counts (wellFormed : table.WellFormed tolerated ring)
    (settles : table.Settles owners start) (responds : table.Responds tolerated owners start) :
    (table.evict owners.noting (start, [])).Satisfies tolerated fun (result, left, _, calls) =>
      (∀ frame, result = .ok frame →
        (left.offer frame).WellFormed tolerated (ring.erase frame)) ∧
      testsIn calls ≤ 3 * table.queued ∧ requestsIn calls ≤ 2 * table.queued := by
  have first := Noted.refl table owners start
  have answers := noting_answers wellFormed.isRing settles responds
  have length := wellFormed.isRing.counted
  have found : (table.evict owners.noting (start, [])).Satisfies tolerated fun (result, left, _) =>
      ∀ frame, result = .ok frame →
        (left.offer frame).WellFormed tolerated (ring.erase frame) := by
    refine .mono (evictWithin_satisfies wellFormed answers _ first ?_) ?_
    · intro nonempty
      have := List.length_pos_iff.mpr nonempty
      omega
    · rintro ⟨_, left, _⟩ outcome frame rfl
      exact outcome.1
  refine found.and ?_
  obtain ⟨order, fromHand⟩ := wellFormed.isRing.exists_order
  have rotated := fromHand.isRotated wellFormed.isRing
  unfold evict
  cases order with
  | nil =>
      rw [evictWithin_of_hand_none fromHand.hand]
      exact .pure ⟨Nat.zero_le _, Nat.zero_le _⟩
  | cons frame rest =>
      have wellFormed' : table.WellFormed (fun _ => True) ring := wellFormed.reach fun _ _ =>
        ⟨fun _ _ => trivial, fun _ _ => trivial⟩
      refine .mono (evictWithin_sweeps wellFormed' rotated fromHand.hand _) ?_
      rintro ⟨result, left, after, calls⟩ ⟨turns, final, _, _, sweep, _⟩
      have positive : 0 < ring.length := rotated.perm.length_eq ▸ Nat.succ_pos _
      have counted := askedAmong_le_length table.ownerOf (reported []) ring
      obtain ⟨requests, tests⟩ := sweep_counts wellFormed.isRing settles sweep first
        (fun _ member => rotated.mem_iff.mp member) (by omega)
      have none : requestsIn [] = 0 ∧ testsIn [] = 0 := ⟨rfl, rfl⟩
      dsimp only at requests tests ⊢
      constructor <;> omega

/-- The loop that looks for a page that was not accessed ends. -/
theorem test_ends (isRing : table.IsRing ring) (settles : table.Settles owners start)
    {index : FrameIndex} (member : table.pool.frameAt index ∈ ring) :
    (Run.loop (fun (place, now) => table.test owners place now) (index, start)).isSome := by
  have answers := noting_answers isRing settles (.any table owners start)
  obtain ⟨_, ends, _⟩ := scan_ends isRing answers member (.refl table owners start)
  have same : Forgets (index, start, ([] : List OwnerCall)) (index, start) := rfl
  obtain ⟨_, ends', _⟩ := Run.Alike.loop (fun _ _ => test_noting) same ends
  exact Option.isSome_of_eq_some ends'

/-- With `n` frames in the ring, obtaining one takes at most `3 n` tests and `2 n` requests to move
a page, if the owners answer the requests and settle; so does the search for a victim by itself,
which is as far as a request gets that requires a frame where none is to be had. The loop that looks
for a clear page ends wherever it is entered, and the attempts are counted down to zero and no
further. -/
theorem Reachable.acquire_bounded (reachable : table.Reachable)
    (addressable : table.pool.Addressable tolerated) :
    (∀ script, table.Settles OwnerScript.owners script) ∧
    (∀ tenants : Tenants arch, table.Settles Tenants.owners tenants) ∧
    ∀ {σ : Type} (owners : FrameOwners σ) (state : σ), table.Settles owners state →
      table.Responds tolerated owners state →
      (∀ index owned asked, table.Queues (table.pool.frameAt index) owned →
        table.Asked owners state asked →
          (Run.loop (fun (place, now) => table.test owners place now) (index, asked)).isSome) ∧
      (table.evict owners.noting (state, [])).Satisfies tolerated (fun (_, _, _, calls) =>
        testsIn calls ≤ 3 * table.queued ∧ requestsIn calls ≤ 2 * table.queued) ∧
      ∀ (request : FrameRequest) (owner : ProcessId) (page : PageNumber),
        unnoted <$> table.acquire owners.noting (state, []) request owner page =
          table.acquire owners state request owner page ∧
        (table.acquire owners.noting (state, []) request owner page).Satisfies
          (fun violation => tolerated violation ∨
            request.required = true ∧ ∃ cause, violation = .noFrameAvailable page owner cause)
          fun (_, _, _, calls) =>
            testsIn calls ≤ 3 * table.queued ∧ requestsIn calls ≤ 2 * table.queued := by
  obtain ⟨ring, unreached⟩ := reachable.wellFormed
  have wellFormed := unreached.reach addressable
  refine ⟨OwnerScript.owners_settle table, Tenants.owners_settle table, ?_⟩
  intro σ owners state settles responds
  have counts := evict_counts wellFormed settles responds
  refine ⟨fun index owned asked queues path => ?_, .mono counts fun _ counted => counted.2,
    fun request owner page => ⟨acquire_noting .., ?_⟩⟩
  · exact test_ends wellFormed.isRing (settles.later path)
      (wellFormed.isRing.queues_iff.mp queues).1
  · unfold FrameTable.acquire FramePool.allocate
    cases stack : table.pool.free with
    | cons frame free =>
        have offered := wellFormed.offer_first stack
        refine .bind (.weaken (.lift (track_satisfies offered request owner page)) fun _ => .inl) ?_
        exact fun _ _ => .pure ⟨Nat.zero_le _, Nat.zero_le _⟩
    | nil =>
        refine .bind (.weaken counts fun _ => .inl) ?_
        rintro ⟨result, left, moved, calls⟩ ⟨offered, counted⟩
        cases result with
        | ok frame =>
            refine .bind (.weaken (.lift (track_satisfies (offered frame rfl) request owner page))
              fun _ => .inl) ?_
            exact fun _ _ => .pure counted
        | error cause =>
            cases required : request.required with
            | true => exact .inr ⟨rfl, cause, rfl⟩
            | false => exact .pure counted

end Counting

/-- Owners of two pages, both accessed, who refuse to move either. -/
def unmoved : OwnerScript where
  accessed := [(⟨1⟩, ⟨1⟩), (⟨1⟩, ⟨2⟩)]
  refusals := [((⟨1⟩, ⟨1⟩), .swapFull), ((⟨1⟩, ⟨2⟩), .swapFull)]

theorem exists_unmoved : ∃ table : FrameTable .scaleModel, table.Reachable ∧
    table.pool.Addressable (fun _ => False) ∧ table.queued = 2 ∧
    ∃ after left calls, (table.acquire OwnerScript.owners.noting (unmoved, []) {} ⟨1⟩ ⟨3⟩).Yields
      (.error .swapFull, after, left, calls) ∧ testsIn calls = 6 ∧ requestsIn calls = 4 := by
  have passes : (filled 2).passes (fun table =>
      table.pool.frames.all (fun frame =>
        (table.pool.reach frame).isOk && (frame.frameStart .scaleModel).isOk) &&
      table.queued == 2 &&
      (table.acquire OwnerScript.owners.noting (unmoved, []) {} ⟨1⟩ ⟨3⟩).passes
        fun (result, _, _, calls) => result == .error .swapFull &&
          testsIn calls == 6 && requestsIn calls == 4) = true := by
    decide +kernel
  simp only [Run.passes_iff, Bool.and_eq_true, Prod.exists, beq_iff_eq] at passes
  obtain ⟨table, made, ⟨reaches, queued⟩, _, after, left, calls, refused, ⟨rfl, tests⟩, requests⟩ :=
    passes
  exact ⟨table, filled_reachable made, FramePool.addressable_of_all reaches, queued, after, left,
    calls, refused, tests, requests⟩

/-- The bounds are reached: the hand goes round three times, and the owners refuse the second and
third time. -/
theorem acquire_bounded_two : ∃ table : FrameTable .scaleModel, table.Reachable ∧
    table.queued = 2 ∧
    ∃ after left calls, (table.acquire OwnerScript.owners.noting (unmoved, []) {} ⟨1⟩ ⟨3⟩).Yields
        (.error .swapFull, after, left, calls) ∧
      testsIn calls = 3 * table.queued ∧ requestsIn calls = 2 * table.queued ∧
      testsIn calls ≤ 3 * table.queued ∧ requestsIn calls ≤ 2 * table.queued := by
  obtain ⟨table, reachable, addressable, queued, after, left, calls, refused, tests, requests⟩ :=
    exists_unmoved
  obtain ⟨settles, _, bounded⟩ := reachable.acquire_bounded addressable
  have responds : table.Responds (fun _ => False) OwnerScript.owners unmoved :=
    fun _ owner script _ _ =>
      .mono (OwnerScript.owners_steady.evicts script owner _) fun _ _ => trivial
  obtain ⟨_, _, counted⟩ := bounded OwnerScript.owners unmoved (settles unmoved) responds
  refine ⟨table, reachable, queued, after, left, calls, refused, ?_, ?_,
    ((counted {} ⟨1⟩ ⟨3⟩).2).of_yields refused⟩
  · rw [tests, queued]
  · rw [requests, queued]

end FrameTable
end DemandPaging
