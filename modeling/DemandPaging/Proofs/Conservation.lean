import DemandPaging.Proofs.Attempts

/-!
Frames are neither lost nor given out twice. A frame goes from the stack of free frames to an
owner, from one owner to the next, or back to the stack; each operation moves one frame at most,
and one that fails moves none.
-/

namespace DemandPaging

variable {arch : Architecture} {σ : Type}

namespace Sweep

variable {owners : FrameOwners σ} {ownerOf : FrameNumber → Option (ProcessId × PageNumber)}
  {contents : FrameNumber → Page} {order final : List FrameNumber} {attempts : Nat}
  {noted left : σ × List OwnerCall} {turns : List Turn} {result : Except VmError FrameNumber}
  {frame : FrameNumber}

/-- The last question of a search that ends with a frame is the one that its owner grants, the only
one that is granted. -/
theorem takes_last
    (sweep : Sweep owners.noting ownerOf contents order attempts noted turns result final left)
    (ended : result = .ok frame) :
    ∃ owner asked, frame ∈ order ∧ ownerOf frame = some owner ∧
      left.2 = asked ++ [.evicted owner.1 owner.2 (contents frame) true] ∧
      ∀ process page written, .evicted process page written true ∈ asked →
        .evicted process page written true ∈ noted.2 := by
  induction sweep with
  | spare _ tested _ ih =>
      obtain ⟨owner, asked, member, owned, last, earlier⟩ := ih ended
      refine ⟨owner, asked, by simpa [or_comm] using member, owned, last, ?_⟩
      intro process page written granted
      have before := earlier process page written granted
      rw [FrameTable.noting_test tested] at before
      simpa using before
  | refuse _ tested refuses _ ih =>
      obtain ⟨owner, asked, member, owned, last, earlier⟩ := ih ended
      refine ⟨owner, asked, by simpa [or_comm] using member, owned, last, ?_⟩
      intro process page written granted
      have before := earlier process page written granted
      rw [FrameTable.noting_evict refuses, FrameTable.noting_test tested] at before
      simpa [Except.isOk, Except.toBool] using before
  | giveUp => cases ended
  | @take victim rest attempts owner state searched left owned tested moves =>
      cases ended
      refine ⟨owner, searched.2, List.mem_cons_self, owned, FrameTable.noting_evict moves, ?_⟩
      intro process page written granted
      rw [FrameTable.noting_test tested] at granted
      simpa using granted

end Sweep

namespace FrameTable

variable {table after : FrameTable arch} {ring : List FrameNumber} {frame : FrameNumber}
  {owners : FrameOwners σ} {state : σ} {calls : List OwnerCall}

section Stock

theorem release_pool :
    (table.release frame).Satisfies (fun _ => True) fun left =>
      left.pool = { table.pool with free := frame :: table.pool.free } ∧
        left.evictions = table.evictions := by
  have unlinks : ∀ (record : FrameRecord) (index : FrameIndex),
      (if record.referenced = true then pure table else table.unlink index).Satisfies
        (fun _ => True) fun unlinked =>
          unlinked.pool = table.pool ∧ unlinked.evictions = table.evictions := by
    intro record index
    split
    · exact .pure ⟨rfl, rfl⟩
    · exact .mono unlink_relinks fun _ relinks => ⟨relinks.pool, relinks.evictions⟩
  unfold release
  refine .bind .any fun index _ => .bind .any fun entry _ => ?_
  split
  · trivial
  · refine .bind (unlinks _ index) fun unlinked same => .bind clear_rest fun cleared rest => ?_
    refine .bind FramePool.deallocate_rest ?_
    rintro _ rfl
    rw [rest]
    exact .pure ⟨by rw [← same.1], same.2⟩

theorem setBytes_free (contents : Page) :
    (table.setBytes frame contents).Satisfies (fun _ => True) fun after =>
      after.pool.free = table.pool.free ∧ after.evictions = table.evictions := by
  refine .mono (.of_errors fun _ _ => trivial) fun after done => ?_
  rw [setBytes_eq done]
  exact ⟨rfl, rfl⟩

theorem track_pool (request : FrameRequest) (owner : ProcessId) (page : PageNumber) :
    (table.track frame request owner page).Satisfies (fun _ => True) fun after =>
      frame ∈ after ∧ after.evictions = table.evictions ∧
        after.pool = (if request.zeroed = true then table.refill frame Page.zero else table).pool := by
  refine .mono (track_enters request owner page) ?_
  rintro _ ⟨index, place, small, rfl⟩
  have held : ∀ filled : FrameTable arch, filled.pool.indexOf? = table.pool.indexOf? →
      filled.records = table.records → ∀ record, frame ∈ filled.enter index record := by
    intro filled places records record
    refine mem_of_find? ((enter_find? (places ▸ place) (records ▸ small) frame).trans (if_pos rfl))
  split
  · exact ⟨held _ rfl rfl _, rfl, rfl⟩
  · exact ⟨held _ rfl rfl _, rfl, rfl⟩

theorem track_free (request : FrameRequest) (owner : ProcessId) (page : PageNumber) :
    (table.track frame request owner page).Satisfies (fun _ => True) fun after =>
      after.pool.free = table.pool.free ∧ after.evictions = table.evictions := by
  refine .mono (track_pool request owner page) ?_
  rintro after ⟨_, evictions, pool⟩
  refine ⟨?_, evictions⟩
  rw [pool]
  split <;> rfl

theorem evictWithin_pool (attempts : Nat) :
    (table.evictWithin owners attempts state).Satisfies (fun _ => True)
      fun (result, left, _) => left.pool = table.pool ∧
        left.evictions = table.evictions + if result.isOk = true then 1 else 0 := by
  refine .mono (evictWithin_ends attempts) ?_
  rintro ⟨result, left, _⟩ ended
  cases result with
  | error cause =>
      dsimp only at ended
      rw [ended]
      exact ⟨rfl, rfl⟩
  | ok frame =>
      obtain ⟨victim, dropped, _, done, rfl⟩ := ended
      have drops : (FrameTable.drop { table with handIndex := some victim } victim).Satisfies
          (fun _ => True) fun left =>
            left.pool = table.pool ∧ left.evictions = table.evictions := by
        refine .bind unlink_relinks fun unlinked relinks => .mono clear_rest fun left rest => ?_
        rw [rest]
        exact ⟨relinks.pool, relinks.evictions⟩
      rw [done] at drops
      exact ⟨drops.1, congrArg (· + 1) drops.2⟩

theorem acquire_free (request : FrameRequest) (owner : ProcessId) (page : PageNumber) :
    (table.acquire owners state request owner page).Satisfies (fun _ => True)
      fun (result, after, left) =>
        match result with
        | .ok frame => (left = state ∧ table.pool.free = frame :: after.pool.free) ∨
            table.pool.free = [] ∧ after.pool.free = []
        | .error _ => after.pool.free = table.pool.free := by
  unfold acquire FramePool.allocate
  cases stack : table.pool.free with
  | cons frame free =>
      exact .bind (.lift (track_free request owner page)) fun _ same =>
        .pure (.inl ⟨rfl, by rw [same.1]⟩)
  | nil =>
      refine .bind (evictWithin_pool _) fun (result, left, state) same => ?_
      cases result with
      | ok frame =>
          refine .bind (.lift (track_free request owner page)) fun _ same' => .pure (.inr ⟨rfl, ?_⟩)
          rw [same'.1, same.1, stack]
      | error cause =>
          dsimp only
          split
          · trivial
          · exact .pure (by rw [same.1, stack])

end Stock

/-- Every frame of the pool is free, once, or some page owns it, and then it is not free; no other
frame is either. So the two kinds add up to the pool. -/
structure Partitions (table : FrameTable arch) : Prop where
  inside : ∀ frame, table.pool.contains frame = true →
    table.pool.free.count frame = if frame ∈ table then 0 else 1
  outside : ∀ frame, table.pool.contains frame = false →
    frame ∉ table.pool.free ∧ frame ∉ table
  total : table.resident + table.free = table.total

/-- How a frame is obtained. It is the first free one, and no owner is asked; or none is free, and
the owner that is asked last, and alone grants it, gives up the page that was in the frame. -/
inductive Hands (table : FrameTable arch) (frame : FrameNumber) (after : FrameTable arch) :
    List OwnerCall → Prop
  | free (stack : table.pool.free = frame :: after.pool.free)
      (evictions : after.evictions = table.evictions) : Hands table frame after []
  | taken {asked : List OwnerCall} {held : ProcessId × PageNumber} (none : table.pool.free = [])
      (still : after.pool.free = []) (queues : table.Queues frame held)
      (refused : ∀ process page written, .evicted process page written true ∉ asked)
      (evictions : after.evictions = table.evictions + 1) :
      Hands table frame after (asked ++ [.evicted held.1 held.2 (table.pool.page frame) true])

theorem WellFormed.untracked_iff (wellFormed : table.WellFormed (fun _ => True) ring) :
    frame ∉ table ↔ frame ∈ table.pool.free ∨ table.pool.contains frame = false := by
  rw [← Bool.not_eq_true, wellFormed.contains]
  have apart := wellFormed.untracked frame
  tauto

theorem WellFormed.partitions (wellFormed : table.WellFormed (fun _ => True) ring) :
    table.Partitions := by
  refine ⟨fun frame inside => ?_, fun frame outside => ?_, wellFormed.counted⟩
  · split
    · rename_i tracked
      exact List.count_eq_zero.mpr fun free => wellFormed.untracked frame free tracked
    · rename_i untracked
      have free := ((wellFormed.contains frame).mp inside).resolve_right untracked
      exact List.count_eq_one_of_mem wellFormed.nodup free
  · rw [← Bool.not_eq_true, wellFormed.contains] at outside
    exact not_or.mp outside

theorem evict_granted (wellFormed : table.WellFormed (fun _ => True) ring) {left : σ}
    (takes : (table.evict owners.noting (state, [])).Yields (.ok frame, after, left, calls)) :
    ∃ held asked, table.Queues frame held ∧
      calls = asked ++ [.evicted held.1 held.2 (table.pool.page frame) true] ∧
      ∀ process page written, .evicted process page written true ∉ asked := by
  obtain ⟨order, fromHand⟩ := wellFormed.isRing.exists_order
  have rotated := fromHand.isRotated wellFormed.isRing
  cases order with
  | nil =>
      unfold evict at takes
      rw [evictWithin_of_hand_none fromHand.hand] at takes
      cases takes
  | cons first rest =>
      obtain ⟨_, _, _, _, sweep, _⟩ :=
        (evictWithin_sweeps wellFormed rotated fromHand.hand _).of_yields takes
      obtain ⟨held, asked, member, owned, last, earlier⟩ := sweep.takes_last rfl
      refine ⟨held, asked, ?_, last, fun process page written granted => ?_⟩
      · exact wellFormed.isRing.queues_iff.mpr ⟨rotated.mem_iff.mp member, owned⟩
      · cases earlier process page written granted

theorem evict_takes (wellFormed : table.WellFormed (fun _ => True) ring) :
    (table.evict owners state).Satisfies (fun _ => True) fun (result, left, _) =>
      match result with
      | .ok frame => (left.offer frame).WellFormed (fun _ => True) (ring.erase frame) ∧
          left.ownerOf = Function.update table.ownerOf frame none ∧
          left.pool = table.pool ∧ left.evictions = table.evictions + 1
      | .error _ => left = { table with handIndex := left.handIndex } := by
  refine .mono (.and (evictWithin_dequeues wellFormed _)
    (.and (evictWithin_ends _) (evictWithin_pool _))) ?_
  rintro ⟨result, left, _⟩ ⟨dequeues, ended, pool, evictions⟩
  cases result with
  | error cause => exact ended
  | ok frame =>
      obtain ⟨member, _, offered⟩ := dequeues
      obtain ⟨victim, dropped, rfl, done, rfl⟩ := ended
      have drops : (FrameTable.drop { table with handIndex := some victim } victim).Satisfies
          (fun _ => True) _ := drop_satisfies (wellFormed.pointIndex member) rfl member
      rw [done] at drops
      exact ⟨offered, drops.2.2.2, pool, evictions⟩

/-- Which frame an acquisition hands to the page, and that one that fails hands out none. -/
theorem acquire_hands (wellFormed : table.WellFormed (fun _ => True) ring)
    (request : FrameRequest) (owner : ProcessId) (page : PageNumber) :
    (table.acquire owners.noting (state, []) request owner page).Satisfies (fun _ => True)
      fun (result, after, _, calls) =>
        match result with
        | .ok frame => table.Hands frame after calls ∧
            after.ownerOf = Function.update table.ownerOf frame (some (owner, page))
        | .error _ => table.pool.free = [] ∧ after = { table with handIndex := after.handIndex } ∧
            ∀ process page written, .evicted process page written true ∉ calls := by
  unfold acquire FramePool.allocate
  cases stack : table.pool.free with
  | cons frame free =>
      have offered := wellFormed.offer_first stack
      refine .bind (.lift ((track_satisfies offered request owner page).and
        (track_free request owner page))) ?_
      rintro after ⟨⟨_, _, _, owners⟩, same, evictions⟩
      exact .pure ⟨.free (by rw [stack, same]) evictions, owners⟩
  | nil =>
      refine .bind (evict_takes wellFormed).yielding ?_
      rintro ⟨result, left, moved, calls⟩ ⟨yields, outcome⟩
      cases result with
      | error cause =>
          dsimp only
          split
          · trivial
          · exact .pure ⟨rfl, outcome, evict_none_granted wellFormed yields⟩
      | ok frame =>
          obtain ⟨offered, vacated, pool, evictions⟩ := outcome
          refine .bind (.lift ((track_satisfies offered request owner page).and
            (track_free request owner page))) ?_
          rintro after ⟨⟨_, _, _, owners⟩, same, counted⟩
          obtain ⟨held, asked, queues, rfl, refused⟩ := evict_granted wellFormed yields
          refine .pure ⟨.taken stack ?_ queues refused (counted.trans evictions), ?_⟩
          · rw [same, pool, stack]
          · rw [owners, vacated, Function.update_idem]

theorem acquire_yields_free (wellFormed : table.WellFormed (fun _ => True) ring)
    {free : List FrameNumber} (stack : table.pool.free = frame :: free) {request : FrameRequest}
    (reaches : request.zeroed = true → table.pool.reach frame = .ok ()) (owner : ProcessId)
    (page : PageNumber) :
    ∃ after, (table.acquire owners state request owner page).Yields (.ok frame, after, state) := by
  let taken : FrameTable arch := { table with pool := { table.pool with free } }
  have tracks : (taken.track frame request owner page).Satisfies (fun _ => False) _ :=
    track_of_reach (wellFormed.offer_first stack) request
      (fun zeroed violation failed => by cases (reaches zeroed).symm.trans failed) owner page
  obtain ⟨after, done, _⟩ := tracks.exists_ok
  refine ⟨after, ?_⟩
  unfold acquire FramePool.allocate
  rw [stack]
  exact Run.yields_bind.mpr ⟨after, done, rfl⟩

theorem release_error (wellFormed : table.WellFormed (fun _ => True) ring)
    (untracked : frame ∉ table) :
    table.release frame = .error
      (if table.pool.contains frame = true then .releaseOfUntrackedFrame frame
        else .foreignFrame frame) := by
  unfold release
  split
  · rename_i inside
    obtain ⟨index, place⟩ := FramePool.exists_indexOf? inside
    rw [FramePool.indexOf_eq place, Checked.ok_bind,
      entry_of_untracked place (wellFormed.lt_size place) untracked]
    rfl
  · rename_i outside
    unfold FramePool.indexOf FramePool.indexOf?
    rw [if_neg outside]
    rfl

theorem mark_conserves (wellFormed : table.WellFormed (fun _ => True) ring) (frame : FrameNumber) :
    ∃ marked, table.markNotReferenced frame = .ok (decide (frame ∈ table), marked) ∧
      marked.pool = table.pool ∧ marked.ownerOf = table.ownerOf := by
  by_cases first : frame ∈ table ∧ frame ∉ ring
  · obtain ⟨⟨known, marked⟩, done, rfl, _, pool, owners⟩ :=
      (markNotReferenced_satisfies wellFormed first.1 first.2).exists_ok
    exact ⟨marked, by rw [done, decide_eq_true first.1], pool, owners⟩
  · refine ⟨table, markNotReferenced_eq wellFormed fun tracked => ?_, rfl, rfl⟩
    exact Classical.not_not.mp fun held => first ⟨tracked, held⟩

/-- Over a pool of any base and size, and after any operations, some of which may have failed,
every frame of the pool is either free, once, or owned. An acquisition hands out a frame that was
free or that the owner of the page in it gave up, which counts as an eviction and happens only
where none is free; if it fails, nothing but the hand has moved. A frame that is owned can always
be given back, and the frames without an owner are the free ones and those of no pool. -/
theorem Reachable.conserves (reachable : table.Reachable) :
    table.Partitions ∧
    (∀ {σ : Type} (owners : FrameOwners σ) (state left : σ) (request : FrameRequest)
      (owner : ProcessId) (page : PageNumber) (result : Except VmError FrameNumber)
      (after : FrameTable arch),
      (table.acquire owners state request owner page).Yields (result, after, left) →
      ∃ calls, (table.acquire owners.noting (state, []) request owner page).Yields
          (result, after, left, calls) ∧ after.Partitions ∧
        match result with
        | .ok frame => table.Hands frame after calls ∧
            after.ownerOf = Function.update table.ownerOf frame (some (owner, page))
        | .error _ => table.pool.free = [] ∧ after = { table with handIndex := after.handIndex } ∧
            ∀ process page written, .evicted process page written true ∉ calls) ∧
    (∀ {σ : Type} (owners : FrameOwners σ) (state : σ) (request : FrameRequest)
      (owner : ProcessId) (page : PageNumber) (frame : FrameNumber) (free : List FrameNumber),
      table.pool.free = frame :: free →
      (request.zeroed = true → table.pool.reach frame = .ok ()) →
      ∃ after, (table.acquire owners state request owner page).Yields (.ok frame, after, state)) ∧
    (∀ frame ∈ table, ∃ released, table.release frame = .ok released ∧
      released.pool = { table.pool with free := frame :: table.pool.free } ∧
      released.evictions = table.evictions ∧
      released.ownerOf = Function.update table.ownerOf frame none) ∧
    (∀ frame ∉ table, table.release frame = .error
      (if table.pool.contains frame = true then .releaseOfUntrackedFrame frame
        else .foreignFrame frame)) ∧
    ∀ frame, (table.ownerOf frame = none ↔
        frame ∈ table.pool.free ∨ table.pool.contains frame = false) ∧
      ∃ known marked, table.markNotReferenced frame = .ok (known, marked) ∧
        (known = false ↔ frame ∈ table.pool.free ∨ table.pool.contains frame = false) ∧
        marked.pool = table.pool ∧ marked.ownerOf = table.ownerOf := by
  obtain ⟨ring, wellFormed⟩ := reachable.wellFormed
  refine ⟨wellFormed.partitions, ?_, ?_, fun frame tracked => ?_, fun _ => release_error wellFormed,
    fun frame => ⟨?_, ?_⟩⟩
  · intro σ owners state left request owner page result after yields
    obtain ⟨_, wellFormed'⟩ := (reachable.acquire yields).wellFormed
    rw [← acquire_noting state [], Run.yields_map] at yields
    obtain ⟨⟨_, _, _, calls⟩, yields, ⟨⟩⟩ := yields
    exact ⟨calls, yields, wellFormed'.partitions,
      (acquire_hands wellFormed request owner page).of_yields yields⟩
  · intro σ owners state request owner page frame free stack reaches
    exact acquire_yields_free wellFormed stack reaches owner page
  · obtain ⟨released, done, _, _, owners⟩ := (release_satisfies wellFormed tracked).exists_ok
    have gives : (table.release frame).Satisfies (fun _ => True) _ := release_pool
    rw [done] at gives
    exact ⟨released, done, gives.1, gives.2, owners⟩
  · rw [← wellFormed.untracked_iff, ← ownerOf_isSome, Option.not_isSome_iff_eq_none]
  · obtain ⟨marked, done, same⟩ := mark_conserves wellFormed frame
    refine ⟨_, marked, done, ?_, same⟩
    rw [decide_eq_false_iff_not, wellFormed.untracked_iff]

/-- A pool of one frame: the second page gets it from the first one, whose owner was asked first if
it had been accessed. -/
theorem conserves_taken : ∃ (table after : FrameTable .scaleModel) (left : OwnerScript)
    (calls : List OwnerCall), table.Reachable ∧ table.Partitions ∧ table.resident = 1 ∧
      (table.acquire OwnerScript.owners {} {} ⟨1⟩ ⟨2⟩).Yields (.ok ⟨16⟩, after, left) ∧
      table.Hands ⟨16⟩ after calls ∧ calls.length = 2 ∧ after.Partitions ∧
      after.evictions = table.evictions + 1 := by
  have passes : (filled 1).passes (fun table => table.resident == 1 &&
      (table.acquire OwnerScript.owners.noting ({}, []) {} ⟨1⟩ ⟨2⟩).passes
        fun (result, after, _, calls) => result == .ok ⟨16⟩ && calls.length == 2 &&
          after.evictions == table.evictions + 1) = true := by
    decide +kernel
  simp only [Run.passes_iff, Bool.and_eq_true, Prod.exists, beq_iff_eq] at passes
  obtain ⟨table, made, resident, _, after, left, calls, noted, ⟨rfl, length⟩, evictions⟩ := passes
  have yields : (table.acquire OwnerScript.owners {} {} ⟨1⟩ ⟨2⟩).Yields
      (.ok ⟨16⟩, after, left) := by
    rw [← acquire_noting ({} : OwnerScript) []]
    exact Run.yields_map.mpr ⟨_, noted, rfl⟩
  obtain ⟨partitions, hands, _⟩ := (filled_reachable made).conserves
  obtain ⟨calls', noted', partitions', handed, _⟩ := hands _ _ _ _ _ _ _ _ yields
  cases noted.symm.trans noted'
  exact ⟨table, after, left, calls, filled_reachable made, partitions, resident, yields, handed,
    length, partitions', evictions⟩

end FrameTable
end DemandPaging
