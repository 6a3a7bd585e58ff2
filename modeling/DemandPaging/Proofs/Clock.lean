import DemandPaging.Frame.Clock
import DemandPaging.Proofs.Frames
import DemandPaging.Proofs.Loops

/-!
Taking frames away. The search for a victim ends at a frame of the ring, because every
page found accessed is one fewer to be found again. A frame that is acquired was free, or
its owner has just moved the page out of it with exactly the frame's contents.
-/

namespace DemandPaging

variable {arch : Architecture} {σ : Type} {tolerated : Violation → Prop}

theorem countP_lt {α : Type} {before after : α → Bool} {l : List α} {x : α}
    (member : x ∈ l) (weaker : ∀ y ∈ l, after y = true → before y = true)
    (counted : before x = true) (gone : after x = false) : l.countP after < l.countP before := by
  obtain ⟨first, rest, rfl⟩ := List.append_of_mem member
  rw [List.countP_append, List.countP_append, List.countP_cons_of_pos counted,
    List.countP_cons_of_neg (by simp [gone])]
  have front := List.countP_mono_left fun y inside =>
    weaker y (List.mem_append_left (x :: rest) inside)
  have back := List.countP_mono_left fun y inside =>
    weaker y (List.mem_append_right first (List.mem_cons_of_mem x inside))
  omega

/-- What a search relies on. `kept` holds of the owners' state while frames stay where they
are and `vacated` once a frame may be given to another page; `accessed` counts the pages of
the ring that are accessed. -/
structure FrameOwners.Answers (owners : FrameOwners σ) (tolerated : Violation → Prop)
    (ownerOf : FrameNumber → Option (ProcessId × PageNumber)) (page : FrameNumber → Page)
    (ring : List FrameNumber) (kept : σ → Prop) (vacated : FrameNumber → σ → Prop)
    (accessed : σ → Nat) : Prop where
  bounded : ∀ state, kept state → accessed state ≤ ring.length
  test : ∀ frame owner state, frame ∈ ring → ownerOf frame = some owner → kept state →
    kept (owners.testAndClearAccessed state owner.1 owner.2).2
  clears : ∀ frame owner state, frame ∈ ring → ownerOf frame = some owner → kept state →
    (owners.testAndClearAccessed state owner.1 owner.2).1 = true →
      accessed (owners.testAndClearAccessed state owner.1 owner.2).2 < accessed state
  evict : ∀ frame owner state, frame ∈ ring → ownerOf frame = some owner → kept state →
    (owners.evict state owner.1 owner.2 (page frame)).Satisfies tolerated fun (result, state) =>
      match result with
      | .ok () => vacated frame state
      | .error _ => kept state
  unowned : ∀ frame state, ownerOf frame = none → kept state → vacated frame state

namespace FrameTable

variable {table : FrameTable arch} {ring : List FrameNumber} {owners : FrameOwners σ}
  {kept : σ → Prop} {vacated : FrameNumber → σ → Prop} {accessed : σ → Nat}

theorem hand_eq {index : FrameIndex} (pointed : table.handIndex = some index) :
    table.hand = some (table.pool.frameAt index) :=
  congrArg (Option.map table.pool.frameAt) pointed

theorem evictWithin_of_hand_none (stopped : table.hand = none) (attempts : Nat) (state : σ) :
    table.evictWithin owners attempts state = pure (.error .outOfFrames, table, state) := by
  unfold evictWithin
  rw [Option.map_eq_none_iff.mp stopped]

theorem IsRing.next_mem (isRing : table.IsRing ring) {frame : FrameNumber}
    {record : FrameRecord} (found : table.find? frame = some record) (member : frame ∈ ring) :
    table.pool.frameAt record.next ∈ ring := by
  obtain ⟨before, after, rfl⟩ := List.append_of_mem member
  by_cases alone : after ++ before = []
  · obtain ⟨rfl, rfl⟩ := List.append_eq_nil_iff.mp alone
    have looped := ((Circular.iff_of_ne_nil (by simp)).mp isRing.circular).2.1
    rw [Option.some.inj ((field?_of_find? found _).symm.trans looped)]
    exact List.mem_singleton_self frame
  · rw [(isRing.neighbours alone found).1]
    have inside := List.head_mem alone
    rw [List.mem_append, or_comm] at inside
    exact List.mem_append.mpr (inside.imp_right (List.mem_cons_of_mem frame))

theorem test_eq {index : FrameIndex} {frame : FrameNumber} {record : FrameRecord}
    (place : table.pool.frameAt index = frame) (found : table.find? frame = some record)
    (state : σ) : table.test owners index state =
      let answer := owners.testAndClearAccessed state record.owner record.page
      if answer.1 then do
        Run.log (.secondChance record.page record.owner)
        return .inl (record.next, answer.2)
      else
        return .inr (index, answer.2) := by
  unfold test
  rw [record_eq place found]
  rfl

/-- A search comes to an end, at a frame of the ring whose page was not accessed. -/
theorem scan_ends (isRing : table.IsRing ring)
    (answers : owners.Answers tolerated table.ownerOf table.pool.page ring kept vacated accessed)
    {index : FrameIndex} {state : σ} (member : table.pool.frameAt index ∈ ring)
    (start : kept state) :
    ∃ run, Run.loop (fun (index, state) => table.test owners index state) (index, state) =
        some run ∧
      run.Satisfies tolerated fun (victim, state) =>
        table.pool.frameAt victim ∈ ring ∧ kept state := by
  refine Run.Satisfies.loop_decreasing
    (fun (index, state) => table.pool.frameAt index ∈ ring ∧ kept state)
    (fun (_, state) => accessed state) ?_ ⟨member, start⟩
  rintro ⟨index, state⟩ ⟨member, start⟩
  obtain ⟨record, found⟩ := FrameTable.mem_iff.mp (isRing.mem member)
  have owned := ownerOf_of_find? found
  have tested := answers.test _ _ state member owned start
  have clears := answers.clears _ _ state member owned start
  dsimp only
  rw [test_eq rfl found]
  generalize owners.testAndClearAccessed state record.owner record.page = answer at tested clears
  obtain ⟨again, cleared⟩ := answer
  cases again with
  | false => exact .pure ⟨member, tested⟩
  | true => exact .bind .log fun _ _ => .pure ⟨⟨isRing.next_mem found member, tested⟩, clears rfl⟩

theorem scan_satisfies (isRing : table.IsRing ring)
    (answers : owners.Answers tolerated table.ownerOf table.pool.page ring kept vacated accessed)
    {index : FrameIndex} {state : σ} (member : table.pool.frameAt index ∈ ring)
    (start : kept state) :
    (table.scan owners index state).Satisfies tolerated fun (victim, state) =>
      table.pool.frameAt victim ∈ ring ∧ kept state := by
  obtain ⟨run, ends, found⟩ := scan_ends isRing answers member start
  unfold scan
  rw [Run.iterate_of_loop _ ends]
  exact found

def point (table : FrameTable arch) (frame : FrameNumber) : FrameTable arch :=
  { table with handIndex := table.pool.indexOf? frame }

theorem point_eq {index : FrameIndex} {frame : FrameNumber}
    (place : table.pool.indexOf? frame = some index) :
    { table with handIndex := some index } = table.point frame := by
  unfold point
  rw [place]

theorem point_hand {frame : FrameNumber} (inside : table.pool.contains frame) :
    (table.point frame).hand = some frame := by
  obtain ⟨index, place⟩ := FramePool.exists_indexOf? inside
  rw [← point_eq place]
  exact congrArg some (FramePool.indexOf?_eq_some.mp place).2

theorem WellFormed.point (wellFormed : table.WellFormed tolerated ring) {frame : FrameNumber}
    (member : frame ∈ ring) : (table.point frame).WellFormed tolerated ring := by
  obtain ⟨isRing, nodup, contains, untracked, size, counted, addressable⟩ := id wellFormed
  have pointed := point_hand (wellFormed.inside_of_tracked (isRing.mem member))
  refine ⟨⟨isRing.nodup, isRing.queued, isRing.circular, isRing.head, ?_, ?_, isRing.counted⟩,
    nodup, contains, untracked, size, counted, addressable⟩
  · intro other here
    exact Option.some.inj (pointed.symm.trans here) ▸ member
  · intro stopped
    cases pointed.symm.trans stopped

theorem WellFormed.pointIndex (wellFormed : table.WellFormed tolerated ring) {index : FrameIndex}
    (member : table.pool.frameAt index ∈ ring) :
    ({ table with handIndex := some index } : FrameTable arch).WellFormed tolerated ring := by
  have inside := wellFormed.inside_of_tracked (wellFormed.isRing.mem member)
  rw [point_eq (FramePool.indexOf?_eq_some.mpr ⟨inside, rfl⟩)]
  exact wellFormed.point member

theorem WellFormed.recount {frame : FrameNumber}
    (wellFormed : (table.offer frame).WellFormed tolerated ring) (evictions : Nat) :
    (({ table with evictions } : FrameTable arch).offer frame).WellFormed tolerated ring :=
  ⟨wellFormed.isRing.congr rfl rfl rfl rfl rfl, wellFormed.nodup, wellFormed.contains,
    wellFormed.untracked, wellFormed.size, wellFormed.counted, wellFormed.addressable⟩

/-- Without a victim, only the hand has moved. -/
theorem evictWithin_satisfies (wellFormed : table.WellFormed tolerated ring)
    (answers : owners.Answers tolerated table.ownerOf table.pool.page ring kept vacated accessed)
    (attempts : Nat) {state : σ} (start : kept state) (some_attempt : ring ≠ [] → 0 < attempts) :
    (table.evictWithin owners attempts state).Satisfies tolerated
      fun (result, left, state) =>
        match result with
        | .ok frame => (left.offer frame).WellFormed tolerated (ring.erase frame) ∧
            left.pool = table.pool ∧
              left.ownerOf = Function.update table.ownerOf frame none ∧ vacated frame state
        | .error _ => left.WellFormed tolerated ring ∧ left.pool = table.pool ∧
            left.ownerOf = table.ownerOf ∧ kept state := by
  induction attempts generalizing table state with
  | zero =>
      unfold evictWithin
      cases pointed : table.handIndex with
      | none => exact .pure ⟨wellFormed, rfl, rfl, start⟩
      | some hand =>
          have member := wellFormed.isRing.hand _ (hand_eq pointed)
          exact absurd (some_attempt (List.ne_nil_of_mem member)) (Nat.lt_irrefl 0)
  | succ attempts ih =>
      unfold evictWithin
      cases pointed : table.handIndex with
      | none => exact .pure ⟨wellFormed, rfl, rfl, start⟩
      | some hand =>
          have member := wellFormed.isRing.hand _ (hand_eq pointed)
          refine .bind (scan_satisfies wellFormed.isRing answers member start) ?_
          rintro ⟨index, searched⟩ ⟨victim, still⟩
          have tracked := wellFormed.isRing.mem victim
          obtain ⟨record, found⟩ := FrameTable.mem_iff.mp tracked
          have owned := ownerOf_of_find? found
          refine .bind (.lift (.of_eq (record_eq rfl found) rfl)) ?_
          rintro _ rfl
          refine .bind (.lift (bytes_satisfies wellFormed
            (wellFormed.inside_of_tracked tracked))) ?_
          rintro _ rfl
          refine .bind (answers.evict _ _ searched victim owned still) ?_
          rintro ⟨result, moved⟩ outcome
          cases result with
          | ok _ =>
              refine .bind (.lift (drop_satisfies (wellFormed.pointIndex victim) rfl victim)) ?_
              rintro dropped ⟨offered, pool, _, owners⟩
              refine .bind .log fun _ _ => ?_
              exact .pure ⟨offered.recount _, pool, owners, outcome⟩
          | error cause =>
              -- the page that was refused stays where it is, and the search goes on behind it
              have onward := wellFormed.isRing.next_mem found victim
              refine .bind .log fun _ _ => ?_
              cases attempts with
              | zero => exact .pure ⟨wellFormed.pointIndex onward, rfl, rfl, outcome⟩
              | succ attempts =>
                  exact ih (wellFormed.pointIndex onward) answers outcome fun _ =>
                    Nat.succ_pos attempts

theorem tracked_of_owns {after : FrameTable arch} {owned : ProcessId × PageNumber}
    {other : FrameNumber}
    (owners : after.ownerOf = Function.update table.ownerOf frame (some owned))
    (tracked : other ∈ after) : other = frame ∨ other ∈ table := by
  rw [← ownerOf_isSome, owners, Function.update_apply] at tracked
  by_cases same : other = frame
  · exact .inl same
  · rw [if_neg same] at tracked
    exact .inr (ownerOf_isSome.mp tracked)

/-- Obtaining a frame either leaves every frame where it was or leads to one that had no
owner, or has none any more; every other frame that was in the ring still is. -/
theorem acquire_satisfies (wellFormed : table.WellFormed tolerated ring)
    (answers : owners.Answers tolerated table.ownerOf table.pool.page ring kept vacated accessed)
    (settled : ∀ frame, frame ∈ table → frame ∈ ring) {state : σ} (start : kept state)
    {request : FrameRequest} (optional : request.required = false) (owner : ProcessId)
    (page : PageNumber) :
    (table.acquire owners state request owner page).Satisfies tolerated
      fun (result, after, state) =>
        match result with
        | .ok frame => vacated frame state ∧
            (after.pool.page = if request.zeroed then
              Function.update table.pool.page frame Page.zero else table.pool.page) ∧
            after.ownerOf = Function.update table.ownerOf frame (some (owner, page)) ∧
            ∃ ring, after.WellFormed tolerated ring ∧ frame ∉ ring ∧
              ∀ other, other ∈ after → other = frame ∨ other ∈ ring
        | .error _ => after.WellFormed tolerated ring ∧ after.pool = table.pool ∧
            after.ownerOf = table.ownerOf ∧ kept state := by
  unfold acquire FramePool.allocate
  cases stack : table.pool.free with
  | cons frame free =>
      have offered := wellFormed.offer_first stack
      have unowned := wellFormed.unowned_of_free (stack ▸ List.mem_cons_self)
      refine .bind (.lift (track_satisfies offered request owner page)) ?_
      rintro after ⟨after', outside, pages, owners⟩
      refine .pure ⟨answers.unowned frame state unowned start, pages, owners, ring, after',
        outside, ?_⟩
      intro other tracked
      exact (tracked_of_owns owners tracked).imp_right (settled other)
  | nil =>
      have search := evictWithin_satisfies wellFormed answers (2 * table.queued) start ?_
      · refine .bind search ?_
        rintro ⟨result, left, state⟩ outcome
        cases result with
        | ok frame =>
            obtain ⟨offered, pool, unowned, vacant⟩ := outcome
            refine .bind (.lift (track_satisfies offered request owner page)) ?_
            rintro after ⟨after', outside, pages, owners⟩
            rw [pool] at pages
            rw [unowned, Function.update_idem] at owners
            refine .pure ⟨vacant, pages, owners, _, after', outside, ?_⟩
            intro other tracked
            by_cases same : other = frame
            · exact .inl same
            · have before := (tracked_of_owns owners tracked).resolve_left same
              exact .inr ((List.mem_erase_of_ne same).mpr (settled other before))
        | error cause =>
            change Run.Satisfies tolerated _ (if request.required then _ else _)
            rw [optional]
            exact .pure outcome
      · intro nonempty
        have := List.length_pos_iff.mpr nonempty
        rw [wellFormed.isRing.counted]
        omega

section Keeping

variable {refused : VmError → Prop} {state : σ}

theorem scan_keeps (test : ∀ state owner page, kept state →
      kept (owners.testAndClearAccessed state owner page).2) (index : FrameIndex)
    (start : kept state) :
    (table.scan owners index state).Satisfies (fun _ => True) fun (_, state) => kept state := by
  refine .iterate (fun (_, state) => kept state) ?_ _ start
  rintro ⟨index, state⟩ start
  refine .bind (.lift .any) fun record _ => ?_
  have tested := test state record.owner record.page start
  dsimp only
  split
  · exact .bind .log fun _ _ => .pure tested
  · exact .pure tested

theorem evictWithin_keeps (test : ∀ state owner page, kept state →
      kept (owners.testAndClearAccessed state owner page).2)
    (evict : ∀ state owner page contents, kept state →
      (owners.evict state owner page contents).Satisfies (fun _ => True) fun (result, state) =>
        kept state ∧ ∀ cause, result = .error cause → refused cause)
    (empty : table.hand = none → refused .outOfFrames) (attempts : Nat) (start : kept state) :
    (table.evictWithin owners attempts state).Satisfies (fun _ => True)
      fun (result, _, state) => kept state ∧ ∀ cause, result = .error cause → refused cause := by
  induction attempts using Nat.strong_induction_on generalizing table state with
  | _ attempts ih =>
      unfold evictWithin
      split
      · rename_i stopped
        refine .pure ⟨start, ?_⟩
        rintro _ ⟨⟩
        exact empty (congrArg (Option.map table.pool.frameAt) stopped)
      · refine .bind (scan_keeps test _ start) ?_
        rintro ⟨frame, state⟩ start
        refine .bind (.lift .any) fun record _ => .bind (.lift .any) fun contents _ => ?_
        refine .bind (evict state record.owner record.page contents start) ?_
        rintro ⟨result, state⟩ ⟨start, reason⟩
        cases result with
        | ok _ =>
            refine .bind (.lift .any) fun _ _ => .bind .log fun _ _ => .pure ⟨start, ?_⟩
            rintro _ ⟨⟩
        | error cause =>
            refine .bind .log fun _ _ => ?_
            match attempts, ih with
            | 0, _ => trivial
            | 1, _ =>
                refine .pure ⟨start, ?_⟩
                rintro _ ⟨⟩
                exact reason cause rfl
            | fewer + 2, ih =>
                refine ih (fewer + 1) (Nat.lt_succ_self _) ?_ start
                rintro ⟨⟩

theorem acquire_keeps (test : ∀ state owner page, kept state →
      kept (owners.testAndClearAccessed state owner page).2)
    (evict : ∀ state owner page contents, kept state →
      (owners.evict state owner page contents).Satisfies (fun _ => True) fun (result, state) =>
        kept state ∧ ∀ cause, result = .error cause → refused cause)
    (empty : table.pool.free = [] → table.hand = none → refused .outOfFrames)
    (request : FrameRequest) (owner : ProcessId) (page : PageNumber) (start : kept state) :
    (table.acquire owners state request owner page).Satisfies (fun _ => True)
      fun (result, _, state) => kept state ∧ ∀ cause, result = .error cause → refused cause := by
  unfold acquire FramePool.allocate
  cases stack : table.pool.free with
  | cons frame free =>
      refine .bind (.lift .any) fun _ _ => .pure ⟨start, ?_⟩
      rintro _ ⟨⟩
  | nil =>
      refine .bind (evictWithin_keeps test evict (empty stack) _ start) ?_
      rintro ⟨result, table, state⟩ ⟨start, reason⟩
      cases result with
      | ok frame =>
          refine .bind (.lift .any) fun _ _ => .pure ⟨start, ?_⟩
          rintro _ ⟨⟩
      | error cause =>
          dsimp only
          split
          · trivial
          · refine .pure ⟨start, ?_⟩
            rintro _ ⟨⟩
            exact reason cause rfl

end Keeping

end FrameTable
end DemandPaging
