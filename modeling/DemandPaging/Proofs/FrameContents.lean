import DemandPaging.Proofs.Canonical
import DemandPaging.Proofs.Conservation

/-!
What frames hold. The contents of a frame are what was written into it last, or zeros if it was
handed out cleared since, and no call writes into two frames. Where the bytes of the frames lie in
one memory, those of different frames lie apart. Owners who are asked to move a page are given
what its frame holds.
-/

namespace DemandPaging

variable {arch : Architecture} {σ : Type}

namespace FramePool

variable {pool : FramePool arch} {memory : Nat → UInt8} {frame other : FrameNumber}

/-- Where the bytes of a frame begin. In the memory that the pool keeps itself that depends on the
place of the frame in the pool, in a direct map on its address. -/
def place (pool : FramePool arch) (frame : FrameNumber) : Nat :=
  match pool.access with
  | .hosted => (frame.value - pool.base.value) * pageSize
  | .directMapped offset => offset + frame.value * pageSize

/-- The page that memory holds where the bytes of a frame are. -/
def peek (pool : FramePool arch) (memory : Nat → UInt8) (frame : FrameNumber) : Page :=
  Vector.ofFn fun i => memory (pool.place frame + i.val)

/-- Memory with another page where the bytes of a frame are. -/
def poke (pool : FramePool arch) (memory : Nat → UInt8) (frame : FrameNumber) (page : Page) :
    Nat → UInt8 := fun address =>
  if inside : address - pool.place frame < pageSize ∧ pool.place frame ≤ address then
    page.get ⟨address - pool.place frame, inside.1⟩
  else memory address

/-- The bytes of a frame that is reached lie within the memory of the pool, or where the direct map
has them. -/
theorem reach_place : (pool.reach frame).Satisfies (fun _ => True) fun _ =>
    pool.contains frame = true ∧
      match pool.access with
      | .hosted => pool.place frame + pageSize ≤ pool.total * pageSize
      | .directMapped offset => ∃ start, frame.frameStart arch = .ok start ∧
          Word.add offset start.value = .ok (pool.place frame) := by
  unfold reach
  refine .bind .required fun _ inside => ?_
  have above : pool.base.value ≤ frame.value ∧ frame.value - pool.base.value < pool.total := by
    simpa [contains] using inside
  unfold place pageSize
  cases pool.access with
  | hosted =>
      refine .pure ⟨inside, ?_⟩
      dsimp only
      omega
  | directMapped offset =>
      refine .bind (.and (.of_errors fun _ _ => trivial)
        ((Address.frameStart_satisfies frame).weaken fun _ _ => trivial)) ?_
      rintro _ ⟨started, _, rfl⟩
      refine .bind (.and (.of_errors fun _ _ => trivial)
        ((Word.add_satisfies offset _).weaken fun _ _ => trivial)) ?_
      rintro _ ⟨summed, rfl⟩
      exact .pure ⟨inside, _, started, summed⟩

/-- The bytes of two frames do not overlap. -/
theorem place_apart (inside : pool.contains frame = true) (inside' : pool.contains other = true)
    (differs : other ≠ frame) :
    pool.place frame + pageSize ≤ pool.place other ∨
      pool.place other + pageSize ≤ pool.place frame := by
  have values : other.value ≠ frame.value := fun same => differs (Number.ext same)
  simp only [contains, Bool.and_eq_true, decide_eq_true_eq] at inside inside'
  unfold place pageSize
  cases pool.access with
  | hosted =>
      dsimp only
      omega
  | directMapped offset =>
      dsimp only
      omega

theorem peek_poke (inside : pool.contains frame = true) (inside' : pool.contains other = true)
    (page : Page) :
    pool.peek (pool.poke memory frame page) other =
      Function.update (pool.peek memory) frame page other := by
  refine Vector.ext fun i small => ?_
  by_cases same : other = frame
  · subst same
    simp [peek, poke, Vector.get]
  · rw [Function.update_of_ne same]
    have apart := place_apart inside inside' same
    have outside : ¬(pool.place other + i - pool.place frame < pageSize ∧
        pool.place frame ≤ pool.place other + i) := by
      omega
    simp [peek, poke, outside]

end FramePool

open Classical in
/-- These owners, as long as a page they are asked to move is offered to them with its contents;
any other request breaks a rule. -/
noncomputable def FrameOwners.guarded (owners : FrameOwners σ)
    (offered : ProcessId → PageNumber → Page → Prop) (violation : Violation) : FrameOwners σ where
  testAndClearAccessed := owners.testAndClearAccessed
  evict state owner page contents :=
    if offered owner page contents then owners.evict state owner page contents
    else Run.violate violation

theorem FrameOwners.guarded_evict {owners : FrameOwners σ}
    {offered : ProcessId → PageNumber → Page → Prop} {owner : ProcessId} {page : PageNumber}
    {contents : Page} (fair : offered owner page contents) (violation : Violation) (state : σ) :
    (owners.guarded offered violation).evict state owner page contents =
      owners.evict state owner page contents :=
  if_pos fair

namespace FrameTable

variable {table after : FrameTable arch} {ring : List FrameNumber} {frame : FrameNumber}
  {owners : FrameOwners σ} {state : σ}

section Requests

/-- Some frame of the ring holds these contents, and its record names this page. -/
def Offers (table : FrameTable arch) (owner : ProcessId) (page : PageNumber) (contents : Page) :
    Prop :=
  ∃ frame, table.Queues frame (owner, page) ∧ table.bytes frame = .ok contents

theorem scan_guarded (offered : ProcessId → PageNumber → Page → Prop) (violation : Violation)
    (index : FrameIndex) (state : σ) :
    table.scan (owners.guarded offered violation) index state = table.scan owners index state :=
  rfl

/-- A search asks to move pages that the table offers, and no others: to break a rule at any other
request makes no difference. -/
theorem evictWithin_guarded (wellFormed : table.WellFormed (fun _ => True) ring)
    (violation : Violation) (attempts : Nat) :
    table.evictWithin (owners.guarded table.Offers violation) attempts state =
      table.evictWithin owners attempts state := by
  induction attempts using Nat.strong_induction_on generalizing table state with
  | _ attempts ih =>
      unfold evictWithin
      cases pointed : table.handIndex with
      | none => rfl
      | some hand =>
          dsimp only
          rw [scan_guarded]
          refine (scan_mem wellFormed.isRing
            (wellFormed.isRing.hand _ (hand_eq pointed))).bind_congr ?_
          rintro ⟨index, searched⟩ victim
          obtain ⟨record, found⟩ := mem_iff.mp (wellFormed.isRing.mem victim)
          refine Run.Satisfies.bind_congr (.lift (.of_eq (record_eq rfl found) rfl)) ?_
          rintro _ rfl
          have current : (table.bytes (table.pool.frameAt index)).Satisfies (fun _ => True)
              fun contents => table.bytes (table.pool.frameAt index) = .ok contents :=
            .of_errors fun _ _ => trivial
          refine Run.Satisfies.bind_congr (.lift current) fun contents current => ?_
          have queued := (wellFormed.isRing.mem_iff found).mp victim
          have fair : table.Offers record.owner record.page contents :=
            ⟨_, ⟨record, found, queued, rfl⟩, current⟩
          rw [FrameOwners.guarded_evict fair]
          refine bind_congr ?_
          rintro ⟨result, moved⟩
          cases result with
          | ok _ => rfl
          | error cause =>
              have onward := wellFormed.isRing.next_mem found victim
              refine bind_congr fun _ => ?_
              obtain _ | _ | fewer := attempts
              · rfl
              · rfl
              · exact ih (fewer + 1) (Nat.lt_succ_self _) (wellFormed.pointIndex onward)

theorem acquire_guarded (wellFormed : table.WellFormed (fun _ => True) ring)
    (violation : Violation) (request : FrameRequest) (owner : ProcessId) (page : PageNumber) :
    table.acquire (owners.guarded table.Offers violation) state request owner page =
      table.acquire owners state request owner page := by
  unfold acquire evict
  rw [evictWithin_guarded wellFormed]

/-- The requests on record are for pages that the table offers. -/
def AsksOffered (table : FrameTable arch) (noted : σ × List OwnerCall) : Prop :=
  ∀ process page contents granted, .evicted process page contents granted ∈ noted.2 →
    table.Offers process page contents

theorem acquire_offers (wellFormed : table.WellFormed (fun _ => True) ring)
    (request : FrameRequest) (owner : ProcessId) (page : PageNumber) :
    (table.acquire owners.noting (state, []) request owner page).Satisfies (fun _ => True)
      fun ended => table.AsksOffered ended.2.2 := by
  rw [← acquire_guarded wellFormed .endless]
  have test (noted : σ × List OwnerCall) (owner : ProcessId) (page : PageNumber)
      (kept : table.AsksOffered noted) : table.AsksOffered
        ((owners.noting.guarded table.Offers .endless).testAndClearAccessed noted owner
          page).2 := by
    intro process page contents granted asked
    exact kept process page contents granted
      (by simpa [FrameOwners.guarded, FrameOwners.noting] using asked)
  have evict (noted : σ × List OwnerCall) (owner : ProcessId) (page : PageNumber)
      (contents : Page) (kept : table.AsksOffered noted) :
      ((owners.noting.guarded table.Offers .endless).evict noted owner page
        contents).Satisfies (fun _ => True) fun answer =>
          table.AsksOffered answer.2 ∧ ∀ cause, answer.1 = .error cause → True := by
    by_cases fair : table.Offers owner page contents
    · rw [FrameOwners.guarded_evict fair]
      refine .bind .any fun answer _ => .pure ⟨?_, fun _ _ => trivial⟩
      intro process other written granted asked
      rcases List.mem_append.mp asked with before | last
      · exact kept process other written granted before
      · cases List.mem_singleton.mp last
        exact fair
    · unfold FrameOwners.guarded
      dsimp only
      rw [if_neg fair]
      trivial
  have start : table.AsksOffered (state, []) :=
    fun _ _ _ _ asked => absurd asked List.not_mem_nil
  exact .mono (acquire_keeps test evict (fun _ _ => trivial) request owner page start)
    fun _ kept => kept.1

end Requests

inductive Call where
  | acquire (request : FrameRequest) (owner : ProcessId) (page : PageNumber)
      (answer : Except VmError FrameNumber)
  | mark (frame : FrameNumber)
  | release (frame : FrameNumber)
  | fill (frame : FrameNumber) (contents : Page)
  | write (frame : FrameNumber) (start : Nat) (source : Bytes)

namespace Call

/-- The frame that a call writes into, with what it makes of the contents. -/
def writes? : Call → Option (FrameNumber × (Page → Page))
  | acquire request _ _ (.ok frame) => if request.zeroed then some (frame, fun _ => Page.zero) else none
  | fill frame contents => some (frame, fun _ => contents)
  | write frame start source => some (frame, fun page => page.overwrite start source)
  | _ => none

def apply (call : Call) (contents : FrameNumber → Page) : FrameNumber → Page :=
  match call.writes? with
  | none => contents
  | some (frame, change) => Function.update contents frame (change (contents frame))

/-- What memory holds after a call. -/
def store (pool : FramePool arch) (call : Call) (memory : Nat → UInt8) : Nat → UInt8 :=
  match call.writes? with
  | none => memory
  | some (frame, change) => pool.poke memory frame (change (pool.peek memory frame))

end Call

/-- A table becomes another one by a call, whatever the owners do. -/
inductive Performs (table : FrameTable arch) : Call → FrameTable arch → Prop
  | acquire {σ : Type} {after : FrameTable arch} {owners : FrameOwners σ} {state left : σ}
      {request : FrameRequest} {owner : ProcessId} {page : PageNumber}
      {result : Except VmError FrameNumber}
      (yields : (table.acquire owners state request owner page).Yields (result, after, left)) :
      Performs table (.acquire request owner page result) after
  | mark {after : FrameTable arch} {frame : FrameNumber} {known : Bool}
      (done : table.markNotReferenced frame = .ok (known, after)) :
      Performs table (.mark frame) after
  | release {after : FrameTable arch} {frame : FrameNumber}
      (done : table.release frame = .ok after) : Performs table (.release frame) after
  | fill {after : FrameTable arch} {frame : FrameNumber} {contents : Page}
      (done : table.setBytes frame contents = .ok after) : Performs table (.fill frame contents) after
  | write {after : FrameTable arch} {frame : FrameNumber} {start : Nat} {source : Bytes}
      (done : table.write frame start source = .ok after) :
      Performs table (.write frame start source) after

/-- A table over a new pool, with anything in its frames, that was called as the history says, the
latest call first. -/
inductive Traced : FramePool arch → List Call → FrameTable arch → Prop
  | new {base : FrameNumber} {total : Nat} {access : FrameAccess} {fresh : FramePool arch}
      (made : FramePool.new base total access = .ok fresh) (contents : NumberMap .frame Page) :
      Traced { fresh with contents } [] { pool := { fresh with contents } }
  | step {pool : FramePool arch} {history : List Call} {table after : FrameTable arch} {call : Call}
      (traced : Traced pool history table) (performs : table.Performs call after) :
      Traced pool (call :: history) after

section Contents

theorem track_page (request : FrameRequest) (owner : ProcessId) (page : PageNumber) :
    (table.track frame request owner page).Satisfies (fun _ => True) fun after =>
      frame ∈ after ∧ after.pool.page = if request.zeroed = true then
        Function.update table.pool.page frame Page.zero else table.pool.page := by
  refine .mono (track_pool request owner page) ?_
  rintro after ⟨tracked, _, pool⟩
  refine ⟨tracked, ?_⟩
  rw [pool]
  cases request.zeroed with
  | false => rfl
  | true => exact table.refill_page frame Page.zero

theorem acquire_page (request : FrameRequest) (owner : ProcessId) (page : PageNumber) :
    (table.acquire owners state request owner page).Satisfies (fun _ => True)
      fun (result, after, _) =>
        match result with
        | .ok frame => frame ∈ after ∧ after.pool.page = if request.zeroed = true then
            Function.update table.pool.page frame Page.zero else table.pool.page
        | .error _ => after.pool.page = table.pool.page := by
  unfold acquire FramePool.allocate
  cases table.pool.free with
  | cons frame free =>
      exact .bind (.lift (track_page request owner page)) fun _ same => .pure same
  | nil =>
      refine .bind (evictWithin_pool _) ?_
      rintro ⟨result, left, _⟩ ⟨pool, _⟩
      cases result with
      | ok frame =>
          refine .bind (.lift (track_page request owner page)) fun _ same => .pure ?_
          rwa [pool] at same
      | error cause =>
          dsimp only
          by_cases required : request.required = true
          · rw [if_pos required]
            trivial
          · rw [if_neg required]
            exact .pure (by rw [pool])

theorem setBytes_replaces {contents : Page} (done : table.setBytes frame contents = .ok after) :
    after.extent = table.extent ∧
      after.pool.page = Function.update table.pool.page frame contents ∧
      table.pool.contains frame = true := by
  have inside : (table.setBytes frame contents).Satisfies (fun _ => True) fun _ =>
      table.pool.contains frame = true :=
    .bind (.bind FramePool.reach_place fun _ reached => .pure reached.1) fun _ inside => .pure inside
  rw [done] at inside
  obtain rfl := setBytes_eq done
  exact ⟨rfl, table.refill_page frame contents, inside⟩

theorem write_eq_setBytes {start : Nat} {source : Bytes}
    (done : table.write frame start source = .ok after) :
    table.setBytes frame ((table.pool.page frame).overwrite start source) = .ok after := by
  have replaces : (table.write frame start source).Satisfies (fun _ => True) fun after =>
      table.setBytes frame ((table.pool.page frame).overwrite start source) = .ok after := by
    unfold write FramePool.write
    simp only [bind_assoc]
    refine .bind bytes_eq_page ?_
    rintro _ rfl
    exact .bind .any fun _ _ => .bind .any fun _ _ => .of_errors fun _ _ => trivial
  rw [done] at replaces
  exact replaces

/-- A call leaves the frames and the way to their bytes as they are, writes into none but its own
frame, and that one is a frame of the pool. -/
theorem Performs.contents {call : Call} (reachable : table.Reachable)
    (performs : table.Performs call after) :
    after.Reachable ∧ after.extent = table.extent ∧ after.pool.page = call.apply table.pool.page ∧
      ∀ frame change, call.writes? = some (frame, change) → table.pool.contains frame = true := by
  obtain ⟨ring, wellFormed⟩ := reachable.wellFormed
  cases performs with
  | @acquire σ after owners state left request owner page result yields =>
      have later := reachable.acquire yields
      have extent := (acquire_extent request owner page).of_yields yields
      have pages := (acquire_page request owner page).of_yields yields
      cases result with
      | error cause => exact ⟨later, extent, pages, nofun⟩
      | ok taken =>
          obtain ⟨tracked, pages⟩ := pages
          obtain ⟨_, wellFormed'⟩ := later.wellFormed
          have inside := wellFormed'.inside_of_tracked tracked
          rw [FramePool.contains_congr extent] at inside
          cases zeroed : request.zeroed with
          | false => exact ⟨later, extent, by simp [pages, Call.apply, Call.writes?, zeroed],
              by simp [Call.writes?, zeroed]⟩
          | true =>
              refine ⟨later, extent, by simp [pages, Call.apply, Call.writes?, zeroed], ?_⟩
              intro frame change writes
              obtain ⟨rfl, -⟩ : taken = frame ∧ _ := by simpa [Call.writes?, zeroed] using writes
              exact inside
  | @mark after frame known done =>
      obtain ⟨marked, done', pool, _⟩ := mark_conserves wellFormed frame
      cases done.symm.trans done'
      exact ⟨reachable.mark done, congrArg FramePool.extent pool, congrArg FramePool.page pool,
        nofun⟩
  | @release after frame done =>
      have gives : (table.release frame).Satisfies (fun _ => True) _ := release_pool
      rw [done] at gives
      refine ⟨reachable.release done, ?_, ?_, nofun⟩
      · unfold FrameTable.extent
        rw [gives.1]
        rfl
      · rw [gives.1]
        rfl
  | @fill after frame contents done =>
      obtain ⟨extent, pages, inside⟩ := setBytes_replaces done
      refine ⟨reachable.write done, extent, pages, ?_⟩
      rintro _ _ ⟨⟩
      exact inside
  | @write after frame start source done =>
      obtain ⟨extent, pages, inside⟩ := setBytes_replaces (write_eq_setBytes done)
      refine ⟨reachable.write (write_eq_setBytes done), extent, pages, ?_⟩
      rintro _ _ ⟨⟩
      exact inside

theorem Call.peek_store {pool : FramePool arch} {memory : Nat → UInt8} {call : Call}
    {contents : FrameNumber → Page}
    (inside : ∀ frame change, call.writes? = some (frame, change) → pool.contains frame = true)
    (shown : ∀ frame, pool.contains frame = true → pool.peek memory frame = contents frame)
    (frame : FrameNumber) (member : pool.contains frame = true) :
    pool.peek (call.store pool memory) frame = call.apply contents frame := by
  unfold Call.store Call.apply
  cases writes : call.writes? with
  | none => exact shown frame member
  | some written =>
      obtain ⟨taken, change⟩ := written
      have within := inside taken change writes
      dsimp only
      rw [FramePool.peek_poke within member, shown taken within, Function.update_apply,
        Function.update_apply, shown frame member]

/-- What is kept up along a history. -/
structure Traced.Keeps (pool : FramePool arch) (history : List Call) (table : FrameTable arch) :
    Prop where
  reachable : table.Reachable
  extent : table.pool.extent = pool.extent
  pages : table.pool.page = history.foldr Call.apply pool.page
  inside : ∀ call ∈ history, ∀ frame change, call.writes? = some (frame, change) →
    pool.contains frame = true

theorem Traced.keeps {pool : FramePool arch} {history : List Call}
    (traced : Traced pool history table) : Traced.Keeps pool history table := by
  induction traced with
  | new made contents => exact ⟨.new made contents, rfl, rfl, nofun⟩
  | @step pool history table after call traced performs ih =>
      obtain ⟨reachable, extent, pages, inside⟩ := ih
      obtain ⟨reachable', extent', pages', inside'⟩ := performs.contents reachable
      refine ⟨reachable', extent'.trans extent, ?_, ?_⟩
      · rw [pages', pages, List.foldr_cons]
      · intro other member frame change writes
        rcases List.mem_cons.mp member with rfl | earlier
        · rw [← FramePool.contains_congr extent]
          exact inside' frame change writes
        · exact inside other earlier frame change writes

/-- Over a pool of any base and size, and after any calls, a frame holds what the history says: the
contents that it had at first, changed by the calls that wrote into it or handed it out cleared,
and by no other. The same is found in a memory in which the calls write at the places of their
frames. Acquiring a frame asks owners to move pages that the table offers, with the bytes of their
frames as they are, and makes no other request, whether or not it ends with a violation. -/
theorem Traced.frame_contents {pool : FramePool arch} {history : List Call}
    (traced : Traced pool history table) :
    (∀ frame, table.bytes frame =
      (do pool.reach frame; return history.foldr Call.apply pool.page frame)) ∧
    (∀ memory, (∀ frame, pool.contains frame = true → pool.peek memory frame = pool.page frame) →
      ∀ frame, pool.contains frame = true →
        pool.peek (history.foldr (Call.store pool) memory) frame =
          history.foldr Call.apply pool.page frame) ∧
    ∀ {σ : Type} (owners : FrameOwners σ) (state : σ) (request : FrameRequest) (owner : ProcessId)
      (page : PageNumber),
      (∀ violation, table.acquire (owners.guarded table.Offers violation) state request owner page =
        table.acquire owners state request owner page) ∧
      ∀ result after left,
        (table.acquire owners state request owner page).Yields (result, after, left) →
        ∃ calls, (table.acquire owners.noting (state, []) request owner page).Yields
            (result, after, left, calls) ∧
          ∀ process page contents granted, .evicted process page contents granted ∈ calls →
            table.Offers process page contents := by
  obtain ⟨reachable, extent, pages, inside⟩ := traced.keeps
  obtain ⟨ring, wellFormed⟩ := reachable.wellFormed
  refine ⟨fun frame => ?_, fun memory shown => ?_, fun owners state request owner page => ⟨?_, ?_⟩⟩
  · rw [← pages, ← FramePool.reach_congr extent]
    rfl
  · clear traced extent pages
    induction history with
    | nil => exact shown
    | cons call earlier ih =>
        have rest := ih fun other member => inside other (List.mem_cons_of_mem call member)
        exact Call.peek_store (inside call List.mem_cons_self) rest
  · exact fun violation => acquire_guarded wellFormed violation request owner page
  · intro result after left yields
    rw [← acquire_noting state [], Run.yields_map] at yields
    obtain ⟨⟨_, _, _, calls⟩, yields, ⟨⟩⟩ := yields
    exact ⟨calls, yields, (acquire_offers wellFormed request owner page).of_yields yields⟩

/-- A frame that was filled with sevens, and the one request for the page in it. -/
theorem contents_filled : ∃ (pool : FramePool .scaleModel) (history : List Call)
    (table after : FrameTable .scaleModel) (left : OwnerScript) (calls : List OwnerCall),
    Traced pool history table ∧ table.bytes ⟨16⟩ = .ok (Vector.replicate pageSize 7) ∧
      (table.acquire OwnerScript.owners.noting ({}, []) {} ⟨1⟩ ⟨2⟩).Yields
        (.ok ⟨16⟩, after, left, calls) ∧ requestsIn calls = 1 ∧
      ∀ process page contents granted, .evicted process page contents granted ∈ calls →
        table.Offers process page contents := by
  let pool : FramePool .scaleModel :=
    { base := ⟨16⟩, total := 1, free := [⟨16⟩], access := .hosted }
  let start : FrameTable .scaleModel := { pool }
  let sevens : Page := Vector.replicate pageSize 7
  have passes : (start.acquire OwnerScript.owners {} {} ⟨1⟩ ⟨1⟩).passes (fun (result, one, _) =>
      result == .ok ⟨16⟩ &&
      (liftM (one.setBytes ⟨16⟩ sevens) : Run _).passes fun filled =>
        (liftM (filled.markNotReferenced ⟨16⟩) : Run _).passes fun (_, queued) =>
          (queued.acquire OwnerScript.owners.noting ({}, []) {} ⟨1⟩ ⟨2⟩).passes
            fun (result, _, _, calls) => result == .ok ⟨16⟩ && requestsIn calls == 1) = true := by
    decide +kernel
  simp only [Run.passes_iff, Bool.and_eq_true, Prod.exists, beq_iff_eq] at passes
  obtain ⟨_, one, script, obtained, rfl, filled, fills, _, queued, marked, _, after, left, calls,
    noted, rfl, asked⟩ := passes
  have made : FramePool.new ⟨16⟩ 1 .hosted = .ok pool := rfl
  have traced := (((Traced.new made ∅).step (.acquire obtained)).step (.fill fills)).step
    (.mark marked)
  obtain ⟨bytes, _, requests⟩ := traced.frame_contents
  have yields : (queued.acquire OwnerScript.owners {} {} ⟨1⟩ ⟨2⟩).Yields
      (.ok ⟨16⟩, after, left) := by
    rw [← acquire_noting ({} : OwnerScript) []]
    exact Run.yields_map.mpr ⟨_, noted, rfl⟩
  obtain ⟨calls', noted', offers⟩ := (requests OwnerScript.owners {} {} ⟨1⟩ ⟨2⟩).2 _ _ _ yields
  cases noted.symm.trans noted'
  exact ⟨_, _, queued, after, left, calls, traced, bytes ⟨16⟩, noted, asked, offers⟩

end Contents

end FrameTable
end DemandPaging
