import DemandPaging.Proofs.Queue

/-!
When the search for a victim succeeds. Every step of the hand brings it closer to a given
frame of the ring, and the second time it comes there the page in the frame has not been
accessed since the first time. So two rounds are enough to ask for every page that is to be
had, however the others answer.
-/

namespace DemandPaging

variable {arch : Architecture} {σ : Type}

/-- How many steps forward lead from a frame of the ring to another one. -/
def ringDistance (ring : List FrameNumber) (goal frame : FrameNumber) : Nat :=
  if ring.idxOf frame ≤ ring.idxOf goal then ring.idxOf goal - ring.idxOf frame
  else ring.idxOf goal + ring.length - ring.idxOf frame

theorem ringDistance_lt {ring : List FrameNumber} {goal : FrameNumber} (goes : goal ∈ ring)
    (frame : FrameNumber) : ringDistance ring goal frame < ring.length := by
  have := List.idxOf_lt_length_of_mem goes
  unfold ringDistance
  split <;> omega

/-- What the owners of a frame do that gives up its page once it has been passed: `pending` is
whether the page is still to be passed. -/
structure FrameOwners.Gives (owners : FrameOwners σ)
    (ownerOf : FrameNumber → Option (ProcessId × PageNumber)) (page : FrameNumber → Page)
    (ring : List FrameNumber) (kept : σ → Prop) (goal : FrameNumber) (pending : σ → Bool) :
    Prop where
  test : ∀ frame owner state, frame ∈ ring → ownerOf frame = some owner → kept state →
    pending (owners.testAndClearAccessed state owner.1 owner.2).2 = true →
      frame ≠ goal ∧ pending state = true
  passes : ∀ owner state, ownerOf goal = some owner → kept state →
    (owners.testAndClearAccessed state owner.1 owner.2).1 = true → pending state = true
  refuses : ∀ frame owner state, frame ∈ ring → ownerOf frame = some owner → kept state →
    (owners.evict state owner.1 owner.2 (page frame)).Satisfies (fun _ => True)
      fun (result, after) => result.isOk = false → pending after = true → pending state = true
  gives : ∀ owner state, ownerOf goal = some owner → kept state →
    (owners.evict state owner.1 owner.2 (page goal)).Satisfies (fun _ => True)
      fun (result, _) => result.isOk = true

theorem FrameOwners.Answers.and {owners : FrameOwners σ} {tolerated : Violation → Prop}
    {ownerOf : FrameNumber → Option (ProcessId × PageNumber)} {page : FrameNumber → Page}
    {ring : List FrameNumber} {kept also : σ → Prop} {vacated cleared : FrameNumber → σ → Prop}
    {accessed : σ → Nat}
    (answers : owners.Answers tolerated ownerOf page ring kept vacated accessed)
    (test : ∀ frame owner state, frame ∈ ring → ownerOf frame = some owner → kept state →
      also state → also (owners.testAndClearAccessed state owner.1 owner.2).2)
    (evict : ∀ frame owner state, frame ∈ ring → ownerOf frame = some owner → kept state →
      also state → (owners.evict state owner.1 owner.2 (page frame)).Satisfies (fun _ => True)
        fun (result, after) =>
          match result with
          | .ok () => cleared frame after
          | .error _ => also after)
    (unowned : ∀ frame state, ownerOf frame = none → cleared frame state) :
    owners.Answers tolerated ownerOf page ring (fun state => kept state ∧ also state) cleared
      accessed := by
  refine ⟨fun state both => answers.bounded state both.1, ?_, ?_, ?_, ?_⟩
  · intro frame owner state member owned ⟨keeps, holds⟩
    exact ⟨answers.test frame owner state member owned keeps,
      test frame owner state member owned keeps holds⟩
  · intro frame owner state member owned ⟨keeps, _⟩
    exact answers.clears frame owner state member owned keeps
  · intro frame owner state member owned ⟨keeps, holds⟩
    refine .mono ((answers.evict frame owner state member owned keeps).and
      (evict frame owner state member owned keeps holds)) ?_
    rintro ⟨result, after⟩ ⟨outcome, also'⟩
    cases result with
    | ok _ => exact also'
    | error cause => exact ⟨outcome, also'⟩
  · exact fun frame state free _ => unowned frame state free

namespace FrameTable

variable {table : FrameTable arch} {ring : List FrameNumber} {goal frame : FrameNumber}
  {owners : FrameOwners σ} {kept : σ → Prop} {vacated : FrameNumber → σ → Prop}
  {accessed : σ → Nat} {pending : σ → Bool} {state : σ}

/-- A step from a frame of the ring leads one closer to the goal, or once around from it. -/
theorem IsRing.ringDistance_next (isRing : table.IsRing ring) (goes : goal ∈ ring)
    (member : frame ∈ ring) {record : FrameRecord} (found : table.find? frame = some record) :
    ringDistance ring goal (table.pool.frameAt record.next) + 1 =
      if frame = goal then ring.length else ringDistance ring goal frame := by
  have next : table.pool.frameAt record.next = ring.next frame member :=
    Option.some.inj ((field?_of_find? found _).symm.trans (isRing.next?_eq member))
  obtain ⟨i, small, rfl⟩ := List.getElem_of_mem member
  obtain ⟨j, bound, rfl⟩ := List.getElem_of_mem goes
  rw [List.next_getElem ring isRing.nodup] at next
  unfold ringDistance
  simp only [next, isRing.nodup.getElem_inj_iff, isRing.nodup.idxOf_getElem]
  by_cases last : i + 1 = ring.length
  · simp only [last, Nat.mod_self]
    split_ifs <;> omega
  · simp only [Nat.mod_eq_of_lt (show i + 1 < ring.length by omega)]
    split_ifs <;> omega

/-- How far the search is from success: the steps to the goal, and a round more if its page is
still to be passed. -/
def remaining (ring : List FrameNumber) (goal : FrameNumber) (pending : σ → Bool)
    (frame : FrameNumber) (state : σ) : Nat :=
  ringDistance ring goal frame + if pending state = true then ring.length else 0

theorem remaining_lt (goes : goal ∈ ring) :
    remaining ring goal pending frame state < 2 * ring.length := by
  have := ringDistance_lt goes frame
  unfold remaining
  split <;> omega

theorem remaining_mono {after : σ} (later : pending after = true → pending state = true) :
    remaining ring goal pending frame after ≤ remaining ring goal pending frame state := by
  unfold remaining
  by_cases still : pending after = true
  · rw [if_pos still, if_pos (later still)]
  · rw [if_neg still]
    exact Nat.le_add_right _ _

theorem scan_nears (isRing : table.IsRing ring) (goes : goal ∈ ring)
    (answers : owners.Answers (fun _ => True) table.ownerOf table.pool.page ring kept vacated
      accessed)
    (gives : owners.Gives table.ownerOf table.pool.page ring kept goal pending) {index : FrameIndex}
    (member : table.pool.frameAt index ∈ ring) (start : kept state) :
    (table.scan owners index state).Satisfies (fun _ => True) fun (victim, after) =>
      table.pool.frameAt victim ∈ ring ∧ kept after ∧
        remaining ring goal pending (table.pool.frameAt victim) after ≤
          remaining ring goal pending (table.pool.frameAt index) state := by
  generalize limit : remaining ring goal pending (table.pool.frameAt index) state = most
  refine .iterate (fun (index, state) => table.pool.frameAt index ∈ ring ∧ kept state ∧
    remaining ring goal pending (table.pool.frameAt index) state ≤ most) ?_ _
    ⟨member, start, limit.le⟩
  rintro ⟨index, state⟩ ⟨member, start, near⟩
  obtain ⟨record, found⟩ := mem_iff.mp (isRing.mem member)
  have owned := ownerOf_of_find? found
  have tested := answers.test _ _ state member owned start
  have later := gives.test _ _ state member owned start
  have passes := gives.passes (record.owner, record.page) state
  have nearer := isRing.ringDistance_next goes member found
  dsimp only
  rw [test_eq rfl found]
  generalize owners.testAndClearAccessed state record.owner record.page = answer
    at tested later passes
  obtain ⟨again, cleared⟩ := answer
  dsimp only at tested later
  cases again with
  | false => exact .pure ⟨member, tested, (remaining_mono fun set => (later set).2).trans near⟩
  | true =>
      refine .bind .log fun _ _ => .pure ⟨isRing.next_mem found member, tested, ?_⟩
      refine Nat.le_trans ?_ near
      change remaining ring goal pending (table.pool.frameAt record.next) cleared ≤ _
      by_cases here : table.pool.frameAt index = goal
      · -- the bit that was set is clear from now on
        subst here
        rw [if_pos rfl] at nearer
        have passed : pending cleared ≠ true := fun set => (later set).1 rfl
        unfold remaining
        rw [if_neg passed, if_pos (passes owned start rfl)]
        omega
      · rw [if_neg here] at nearer
        refine Nat.le_trans ?_ (remaining_mono fun set => (later set).2)
        unfold remaining
        omega

theorem evictWithin_gives (wellFormed : table.WellFormed (fun _ => True) ring) (goes : goal ∈ ring)
    (answers : owners.Answers (fun _ => True) table.ownerOf table.pool.page ring kept vacated
      accessed)
    (gives : owners.Gives table.ownerOf table.pool.page ring kept goal pending)
    (attempts : Nat) (start : kept state)
    (enough : ∀ hand, table.handIndex = some hand →
      remaining ring goal pending (table.pool.frameAt hand) state < attempts) :
    (table.evictWithin owners attempts state).Satisfies (fun _ => True)
      fun (result, _) => result.isOk = true := by
  induction attempts using Nat.strong_induction_on generalizing table state with
  | _ attempts ih =>
      unfold evictWithin
      cases pointed : table.handIndex with
      | none =>
          have stopped : table.hand = none := Option.map_eq_none_iff.mpr pointed
          exact absurd (wellFormed.isRing.stopped stopped) (List.ne_nil_of_mem goes)
      | some hand =>
          have member := wellFormed.isRing.hand _ (hand_eq pointed)
          refine .bind (scan_nears wellFormed.isRing goes answers gives member start) ?_
          rintro ⟨index, searched⟩ ⟨victim, still, nearer⟩
          have near := Nat.lt_of_le_of_lt nearer (enough hand pointed)
          have tracked := wellFormed.isRing.mem victim
          obtain ⟨record, found⟩ := mem_iff.mp tracked
          have owned := ownerOf_of_find? found
          refine .bind (.lift (.of_eq (record_eq rfl found) rfl)) ?_
          rintro _ rfl
          refine .bind (.lift (bytes_satisfies wellFormed
            (wellFormed.inside_of_tracked tracked))) ?_
          rintro _ rfl
          have asked := (answers.evict _ _ searched victim owned still).and
            (gives.refuses _ _ searched victim owned still)
          by_cases here : table.pool.frameAt index = goal
          · subst here
            refine .bind (gives.gives _ searched owned still) ?_
            rintro ⟨result, moved⟩ given
            cases result with
            | ok _ => exact .bind (.lift .any) fun _ _ => .bind .log fun _ _ => .pure rfl
            | error cause => cases given
          · refine .bind asked ?_
            rintro ⟨result, moved⟩ ⟨outcome, later⟩
            cases result with
            | ok _ => exact .bind (.lift .any) fun _ _ => .bind .log fun _ _ => .pure rfl
            | error cause =>
                have onward := wellFormed.isRing.next_mem found victim
                have closer : remaining ring goal pending (table.pool.frameAt record.next) moved + 1 ≤
                    remaining ring goal pending (table.pool.frameAt index) searched := by
                  have step := wellFormed.isRing.ringDistance_next goes victim found
                  rw [if_neg here] at step
                  refine Nat.le_trans ?_ (remaining_mono (later rfl))
                  unfold remaining
                  omega
                refine .bind .log fun _ _ => ?_
                obtain _ | _ | fewer := attempts
                · omega
                · omega
                · refine ih (fewer + 1) (Nat.lt_succ_self _) (wellFormed.pointIndex onward) answers
                    gives outcome ?_
                  rintro _ ⟨⟩
                  dsimp only
                  omega

theorem acquire_of_free (free : table.pool.free ≠ []) (request : FrameRequest)
    (owner : ProcessId) (page : PageNumber) :
    (table.acquire owners state request owner page).Satisfies (fun _ => True)
      fun (result, _) => result.isOk = true := by
  unfold acquire FramePool.allocate
  cases stack : table.pool.free with
  | nil => exact absurd stack free
  | cons frame rest => exact .bind (.lift .any) fun _ _ => .pure rfl

/-- If one page is to be had, a frame is obtained. -/
theorem acquire_gives (wellFormed : table.WellFormed (fun _ => True) ring) (goes : goal ∈ ring)
    (answers : owners.Answers (fun _ => True) table.ownerOf table.pool.page ring kept vacated
      accessed)
    (gives : owners.Gives table.ownerOf table.pool.page ring kept goal pending)
    (start : kept state) (request : FrameRequest) (owner : ProcessId) (page : PageNumber) :
    (table.acquire owners state request owner page).Satisfies (fun _ => True)
      fun (result, _) => result.isOk = true := by
  unfold acquire
  split
  · exact .bind (.lift .any) fun _ _ => .pure rfl
  · have search : (table.evict owners state).Satisfies (fun _ => True) fun (result, _) =>
        result.isOk = true := by
      refine evictWithin_gives wellFormed goes answers gives _ start fun _ _ => ?_
      rw [wellFormed.isRing.counted]
      exact remaining_lt goes
    refine .bind search ?_
    rintro ⟨result, left, state⟩ given
    cases result with
    | ok frame => exact .bind (.lift .any) fun _ _ => .pure rfl
    | error cause => cases given

theorem acquire_fails (wellFormed : table.WellFormed (fun _ => True) ring)
    (answers : owners.Answers (fun _ => True) table.ownerOf table.pool.page ring kept
      (fun frame _ => table.ownerOf frame = none) accessed)
    (full : table.pool.free = []) (start : kept state) (request : FrameRequest)
    (owner : ProcessId) (page : PageNumber) :
    (table.acquire owners state request owner page).Satisfies (fun _ => True)
      fun (result, _) => result.isOk = false := by
  unfold acquire FramePool.allocate
  rw [full]
  refine .bind (evictWithin_satisfies wellFormed answers (2 * table.queued) start ?_) ?_
  · intro nonempty
    have := List.length_pos_iff.mpr nonempty
    rw [wellFormed.isRing.counted]
    omega
  · rintro ⟨result, left, state⟩ outcome
    cases result with
    | error cause =>
        dsimp only
        split
        · trivial
        · exact .pure rfl
    | ok frame =>
        -- a frame that was taken away had an owner
        obtain ⟨offered, pool, _, unowned⟩ := outcome
        have inside := offered.inside_of_offered
        rw [pool, wellFormed.contains, full, ← ownerOf_isSome, unowned] at inside
        simp at inside

end FrameTable
end DemandPaging
