import DemandPaging.Proofs.Victim

/-!
The order in which pages go. Between two calls any accessed bits may change. What counts for two
queued frames is which of them the hand comes to first: as long as that is the first one and its
page is not accessed, the second one is not taken. A frame that joins the queue comes behind the
frames that the hand is still to come to on this round, but before those that it has passed.
-/

namespace DemandPaging

variable {arch : Architecture} {σ : Type}

theorem sublist_of_not_mem {α : Type} {a b : α} {front back : List α}
    (inside : [a, b].Sublist (front ++ back)) (apart : a ∉ front) : [a, b].Sublist back := by
  induction front with
  | nil => exact inside
  | cons c front ih =>
      obtain ⟨differs, apart⟩ := not_or.mp fun member => apart (List.mem_cons.mpr member)
      cases inside with
      | cons _ inside => exact ih inside apart
      | cons_cons => exact absurd rfl differs

namespace FrameTable

variable {table after marked released : FrameTable arch} {ring order : List FrameNumber}
  {frame first second : FrameNumber}

def Queued (table : FrameTable arch) (frame : FrameNumber) : Prop :=
  ∃ record, table.find? frame = some record ∧ record.referenced = false

/-- Going on from where it is, the hand comes to the first frame before the second. -/
def Precedes (table : FrameTable arch) (first second : FrameNumber) : Prop :=
  ∃ order, table.FromHand order ∧ [first, second].Sublist order

/-- No two frames serve the same page. -/
def Distinct (table : FrameTable arch) : Prop :=
  ∀ frame other owner, table.ownerOf frame = some owner → table.ownerOf other = some owner →
    frame = other

theorem FromHand.unique {other : List FrameNumber} (fromHand : table.FromHand order)
    (isRing : table.IsRing ring) (again : table.FromHand other) : order = other :=
  (fromHand.inOrder_eq isRing).symm.trans (again.inOrder_eq isRing)

theorem IsRing.queued_iff (isRing : table.IsRing ring) : table.Queued frame ↔ frame ∈ ring :=
  (isRing.isQueue.mem_iff frame).symm

theorem Reachable.queued_iff (reachable : table.Reachable) :
    table.Queued frame ↔ frame ∈ table.inOrder := by
  obtain ⟨ring, wellFormed⟩ := reachable.wellFormed
  rw [wellFormed.isRing.queued_iff]
  exact (reachable.fromHand.isRotated wellFormed.isRing).mem_iff.symm

theorem Distinct.nodup (distinct : table.Distinct) (isRing : table.IsRing ring)
    (rotated : order.IsRotated ring) : (order.map table.ownerOf).Nodup := by
  refine (rotated.nodup_iff.mpr isRing.nodup).map_on fun a inside b _ same => ?_
  obtain ⟨owner, owned⟩ := Option.isSome_iff_exists.mp
    (ownerOf_isSome.mpr (isRing.mem (rotated.mem_iff.mp inside)))
  exact distinct a b owner owned (same ▸ owned)

theorem Distinct.congr (distinct : table.Distinct) (owners : after.ownerOf = table.ownerOf) :
    after.Distinct := by
  unfold Distinct
  rwa [owners]

theorem Distinct.update (distinct : table.Distinct) {owner : Option (ProcessId × PageNumber)}
    (fresh : ∀ page, owner = some page → ∀ other, table.ownerOf other ≠ some page)
    (owners : after.ownerOf = Function.update table.ownerOf frame owner) : after.Distinct := by
  intro a b page ofA ofB
  rw [owners, Function.update_apply] at ofA ofB
  split at ofA <;> split at ofB
  · simp_all
  · exact absurd ofB (fresh page ofA b)
  · exact absurd ofA (fresh page ofB a)
  · exact distinct a b page ofA ofB

section Acquire

variable {owners : FrameOwners σ} {accessed : σ → ProcessId × PageNumber → Bool}
  {refusal : σ → ProcessId × PageNumber → Option VmError} {state : σ}

/-- A frame that the hand comes to before another one, and whose page is not accessed, protects
the other one. -/
theorem acquire_precedes (wellFormed : table.WellFormed (fun _ => True) ring)
    (distinct : table.Distinct) (fromHand : table.FromHand order)
    (precedes : [first, second].Sublist order)
    (steady : owners.Steady (fun _ => True) accessed refusal)
    (willing : ∀ page, refusal state page = none)
    (clear : pageIn table.ownerOf (accessed state) first = false) (request : FrameRequest)
    (owner : ProcessId) (page : PageNumber) :
    (table.acquire owners state request owner page).Satisfies (fun _ => True)
      fun (result, after, _) => ∃ frame onward, result = .ok frame ∧ frame ≠ second ∧
        table.Reassigns frame onward (owner, page) after ∧
        (frame ≠ first → [first, second].Sublist onward) := by
  have rotated := fromHand.isRotated wellFormed.isRing
  have inside : first ∈ order := precedes.subset List.mem_cons_self
  have inside' : second ∈ order := precedes.subset (List.mem_cons_of_mem _ List.mem_cons_self)
  cases stack : table.pool.free with
  | cons frame free =>
      have offered := wellFormed.offer_first stack
      have first_free : frame ∈ table.pool.free := stack ▸ List.mem_cons_self
      have unowned := wellFormed.unowned_of_free first_free
      have apart : frame ≠ second := fun same =>
        wellFormed.untracked frame first_free
          (wellFormed.isRing.mem (rotated.mem_iff.mp (same ▸ inside')))
      unfold acquire FramePool.allocate
      rw [stack]
      refine .bind (.lift (track_reassigns offered
        (unowned ▸ (Function.update_eq_self frame table.ownerOf).symm) rotated fromHand.hand)) ?_
      intro after reassigns
      exact .pure ⟨frame, order, rfl, apart, reassigns, fun _ => precedes⟩
  | nil =>
      have nodup := rotated.nodup_iff.mpr wellFormed.isRing.nodup
      have owners_nodup := distinct.nodup wellFormed.isRing rotated
      -- the frame that goes is the first one whose page is not accessed
      have found : (order.find? fun frame => !pageIn table.ownerOf (accessed state) frame).isSome :=
        List.find?_isSome.mpr ⟨first, inside, by rw [clear]; rfl⟩
      obtain ⟨victim, chosen⟩ := Option.isSome_iff_exists.mp found
      obtain ⟨untouched, before, behind, rfl, touched⟩ := List.find?_eq_some_iff_append.mp chosen
      simp only [Bool.not_not, Bool.not_eq_true'] at untouched touched
      have behindFirst : first ∉ before := by
        intro member
        rw [touched first member] at clear
        cases clear
      have onward := sublist_of_not_mem precedes behindFirst
      have taken : table.Takes (fun _ => True) owners state request owner page accessed victim
          (behind ++ before) (withoutPages table.ownerOf (accessed state) before) :=
        acquire_takes_first wellFormed stack fromHand owners_nodup steady
          (fun frame member => .inl (touched frame member)) untouched
          (by unfold refusalOf; cases table.ownerOf victim <;> simp [willing])
      refine .mono taken ?_
      rintro ⟨_, after, left⟩ ⟨rfl, reassigns, _⟩
      obtain ⟨_, nodup, _⟩ := List.nodup_append.mp nodup
      obtain ⟨apart, _⟩ := List.nodup_cons.mp nodup
      refine ⟨victim, _, rfl, ?_, reassigns, fun differs => ?_⟩
      · rintro rfl
        cases onward with
        | cons _ inside => exact apart (inside.subset (List.mem_cons_of_mem _ List.mem_cons_self))
        | cons_cons _ inside => exact apart (inside.subset List.mem_cons_self)
      · cases onward with
        | cons _ inside => exact inside.trans (List.sublist_append_left behind before)
        | cons_cons => exact absurd rfl differs

end Acquire

/-- The order of the frames from the hand on, and their order in the queue, which it is a rotation
of: those that the hand has passed on this round, and those it is still to come to. -/
theorem IsRing.exists_round (isRing : table.IsRing ring) :
    ∃ passed coming, ring = passed ++ coming ∧ table.hand = (coming ++ passed).head? ∧
      (coming = [] → passed = []) := by
  cases pointed : table.hand with
  | none => exact ⟨[], [], isRing.stopped pointed, rfl, fun _ => rfl⟩
  | some hand =>
      obtain ⟨passed, coming, split⟩ := List.append_of_mem (isRing.hand hand pointed)
      exact ⟨passed, hand :: coming, split, rfl, by simp⟩

/-- A frame that joins the queue comes behind the frames that the hand is still to come to. -/
theorem mark_fromHand {unreached : Violation → Prop} {passed coming : List FrameNumber}
    (wellFormed : table.WellFormed unreached (passed ++ coming))
    (hand : table.hand = (coming ++ passed).head?) (nonempty : coming = [] → passed = [])
    (tracked : frame ∈ table) (held : frame ∉ passed ++ coming) {known : Bool}
    (done : table.markNotReferenced frame = .ok (known, marked)) :
    marked.FromHand (coming ++ frame :: passed) ∧ marked.ownerOf = table.ownerOf := by
  have joins : (table.markNotReferenced frame).Satisfies (fun _ => True) _ :=
    .and (markNotReferenced_enqueues wellFormed tracked held)
      (markNotReferenced_satisfies wellFormed tracked held)
  rw [done] at joins
  obtain ⟨⟨_, wellFormed', pointed⟩, _, _, _, owners⟩ := joins
  refine ⟨.of_isRing wellFormed'.isRing ?_ ?_, owners⟩
  · have rotated : (coming ++ [frame] ++ passed).IsRotated (passed ++ (coming ++ [frame])) :=
      List.isRotated_append
    rwa [List.append_assoc coming, List.singleton_append, ← List.append_assoc] at rotated
  · rw [pointed, hand]
    cases coming with
    | nil => simp [nonempty rfl]
    | cons hand coming => simp

theorem release_fromHand {unreached : Violation → Prop} (wellFormed : table.WellFormed unreached ring)
    (fromHand : table.FromHand order) (done : table.release frame = .ok released) :
    released.FromHand (order.erase frame) ∧
      released.ownerOf = Function.update table.ownerOf frame none := by
  have tracked := mem_of_release done
  have leaves : (table.release frame).Satisfies (fun _ => True) _ :=
    .and (release_dequeues wellFormed tracked) (release_satisfies wellFormed tracked)
  rw [done] at leaves
  obtain ⟨⟨wellFormed', dequeues⟩, _, _, owners⟩ := leaves
  have rotated := fromHand.isRotated wellFormed.isRing
  refine ⟨.of_isRing wellFormed'.isRing
    (isRotated_erase wellFormed.isRing.nodup rotated frame) ?_, owners⟩
  cases order with
  | nil =>
      have elsewhere : table.hand ≠ some frame := by simp [fromHand.hand]
      rw [dequeues.stays elsewhere, fromHand.hand]
      rfl
  | cons hand rest =>
      by_cases here : hand = frame
      · subst here
        rw [List.erase_cons_head]
        exact dequeues.hand_eq fromHand.hand wellFormed.isRing.nodup rotated
      · have elsewhere : table.hand ≠ some frame := by simpa [fromHand.hand] using here
        rw [dequeues.stays elsewhere, fromHand.hand, List.erase_cons_tail (by simpa using here)]
        rfl

end FrameTable

/-- A frame table and the pages that are accessed. -/
structure Moment (arch : Architecture) where
  table : FrameTable arch
  accessed : ProcessId × PageNumber → Bool

namespace Moment

variable {moment next : Moment arch} {first second : FrameNumber}

/-- What happens between two moments: an operation on the table, by owners that refuse nothing and
for pages without a frame, or a change of the accessed bits. -/
inductive Step : Moment arch → Moment arch → Prop
  | acquire {σ : Type} {table after : FrameTable arch} {owners : FrameOwners σ}
      {accessed : σ → ProcessId × PageNumber → Bool}
      {refusal : σ → ProcessId × PageNumber → Option VmError} {state left : σ}
      {request : FrameRequest} {owner : ProcessId} {page : PageNumber}
      {result : Except VmError FrameNumber}
      (steady : owners.Steady (fun _ => True) accessed refusal)
      (willing : ∀ page, refusal state page = none)
      (fresh : ∀ frame, table.ownerOf frame ≠ some (owner, page))
      (yields : (table.acquire owners state request owner page).Yields (result, after, left)) :
      Step ⟨table, accessed state⟩ ⟨after, accessed left⟩
  | mark {table after : FrameTable arch} {accessed : ProcessId × PageNumber → Bool}
      {frame : FrameNumber} {known : Bool}
      (done : table.markNotReferenced frame = .ok (known, after)) :
      Step ⟨table, accessed⟩ ⟨after, accessed⟩
  | release {table after : FrameTable arch} {accessed : ProcessId × PageNumber → Bool}
      {frame : FrameNumber} (done : table.release frame = .ok after) :
      Step ⟨table, accessed⟩ ⟨after, accessed⟩
  | access (table : FrameTable arch) (before after : ProcessId × PageNumber → Bool) :
      Step ⟨table, before⟩ ⟨table, after⟩

/-- From a moment of a certain kind on, both frames have been queued and the page in the first one
has not been accessed, at any moment. -/
inductive Since (begins : Moment arch → Prop) (first second : FrameNumber) : Moment arch → Prop
  | start {moment : Moment arch} (start : begins moment)
      (clear : pageIn moment.table.ownerOf moment.accessed first = false) :
      Since begins first second moment
  | step {moment next : Moment arch} (since : Since begins first second moment)
      (step : Step moment next) (queued : next.table.Queued first)
      (queued' : next.table.Queued second)
      (clear : pageIn next.table.ownerOf next.accessed first = false) :
      Since begins first second next

/-- The hand comes to the first frame before the second. -/
structure Ordered (first second : FrameNumber) (moment : Moment arch) : Prop where
  reachable : moment.table.Reachable
  distinct : moment.table.Distinct
  precedes : moment.table.Precedes first second

theorem Ordered.step (ordered : moment.Ordered first second)
    (clear : pageIn moment.table.ownerOf moment.accessed first = false) (step : Step moment next)
    (queued : next.table.Queued first) (queued' : next.table.Queued second) :
    next.Ordered first second := by
  obtain ⟨reachable, distinct, order, fromHand, precedes⟩ := ordered
  obtain ⟨ring, wellFormed⟩ := reachable.wellFormed
  cases step with
  | acquire steady willing fresh yields =>
      obtain ⟨frame, onward, rfl, _, reassigns, kept⟩ := (FrameTable.acquire_precedes wellFormed
        distinct fromHand precedes steady willing clear _ _ _).of_yields yields
      have differs : frame ≠ first := by
        rintro rfl
        obtain ⟨record, found, free⟩ := queued
        have held := reassigns.held
        rw [FrameTable.field?_of_find? found, free] at held
        cases held
      refine ⟨.acquire reachable yields, distinct.update ?_ reassigns.owners, onward,
        reassigns.fromHand, kept differs⟩
      rintro _ ⟨⟩
      exact fresh
  | @mark table after accessed frame known done =>
      by_cases settled : frame ∈ table → frame ∈ ring
      · cases done.symm.trans (FrameTable.markNotReferenced_eq wellFormed settled)
        exact ⟨reachable, distinct, order, fromHand, precedes⟩
      · obtain ⟨tracked, held⟩ := Classical.not_imp.mp settled
        obtain ⟨passed, coming, rfl, hand, nonempty⟩ := wellFormed.isRing.exists_round
        obtain rfl := fromHand.unique wellFormed.isRing
          (.of_isRing wellFormed.isRing List.isRotated_append hand)
        obtain ⟨fromHand', owners⟩ :=
          FrameTable.mark_fromHand wellFormed hand nonempty tracked held done
        exact ⟨.mark reachable done, distinct.congr owners, _, fromHand',
          precedes.trans ((List.Sublist.refl coming).append (List.sublist_cons_self frame passed))⟩
  | @release table after accessed frame done =>
      obtain ⟨fromHand', owners⟩ := FrameTable.release_fromHand wellFormed fromHand done
      have kept {other : FrameNumber} (still : after.Queued other) : frame ≠ other := by
        rintro rfl
        obtain ⟨record, found, _⟩ := still
        have owned := FrameTable.ownerOf_of_find? found
        rw [owners, Function.update_self] at owned
        cases owned
      have apart : frame ∉ [first, second] := by simp [kept queued, kept queued']
      refine ⟨.release reachable done, distinct.update (by rintro _ ⟨⟩) owners, _, fromHand',
        ?_⟩
      have erased := precedes.erase frame
      rwa [List.erase_of_not_mem apart] at erased
  | access table before after => exact ⟨reachable, distinct, order, fromHand, precedes⟩

theorem Since.ordered (since : moment.Since (Ordered first second) first second) :
    moment.Ordered first second ∧
      pageIn moment.table.ownerOf moment.accessed first = false := by
  induction since with
  | start start clear => exact ⟨start, clear⟩
  | step since step queued queued' clear ih => exact ⟨ih.1.step ih.2 step queued queued', clear⟩

/-- The second frame has just joined the queue, in which the first one is already. -/
def Joins (first second : FrameNumber) (moment : Moment arch) : Prop :=
  ∃ table : FrameTable arch, table.Reachable ∧ table.Distinct ∧ table.Queued first ∧
    ¬table.Queued second ∧ table.markNotReferenced second = .ok (true, moment.table)

/-- A frame joins the queue behind the frames that the hand is still to come to on this round, and
before those that it has passed. From any moment at which the hand comes to a frame before
another one, the other one is not taken as long as both are queued and the page in the first one
is not accessed. -/
theorem acquire_order :
    (∀ (table marked : FrameTable arch) (second : FrameNumber), table.Reachable →
      ¬table.Queued second → table.markNotReferenced second = .ok (true, marked) →
        ∃ passed coming, table.IsQueue (passed ++ coming) ∧ table.FromHand (coming ++ passed) ∧
          (coming = [] → passed = []) ∧
          ∀ first, (first ∈ coming → marked.Precedes first second) ∧
            (first ∈ passed → marked.Precedes second first)) ∧
    ∀ (first second : FrameNumber) (moment : Moment arch),
      moment.Since (Ordered first second) first second →
        ∀ {σ : Type} (owners : FrameOwners σ) (accessed : σ → ProcessId × PageNumber → Bool)
          (refusal : σ → ProcessId × PageNumber → Option VmError) (state left : σ)
          (request : FrameRequest) (owner : ProcessId) (page : PageNumber)
          (result : Except VmError FrameNumber) (after : FrameTable arch),
          owners.Steady (fun _ => True) accessed refusal → (∀ page, refusal state page = none) →
          accessed state = moment.accessed →
          (moment.table.acquire owners state request owner page).Yields (result, after, left) →
            result ≠ .ok second := by
  refine ⟨?_, ?_⟩
  · intro table marked second reachable outside done
    obtain ⟨ring, wellFormed⟩ := reachable.wellFormed
    have tracked : second ∈ table := by
      by_contra absent
      have same := done.symm.trans
        (FrameTable.markNotReferenced_eq wellFormed (absurd · absent))
      simp [absent] at same
    obtain ⟨passed, coming, rfl, hand, nonempty⟩ := wellFormed.isRing.exists_round
    rw [wellFormed.isRing.queued_iff] at outside
    obtain ⟨fromHand, _⟩ := FrameTable.mark_fromHand wellFormed hand nonempty tracked outside done
    refine ⟨passed, coming, wellFormed.isRing.isQueue,
      .of_isRing wellFormed.isRing List.isRotated_append hand, nonempty, fun first => ⟨?_, ?_⟩⟩
    · intro member
      exact ⟨_, fromHand, (List.singleton_sublist.mpr member).append
        (List.singleton_sublist.mpr List.mem_cons_self)⟩
    · intro member
      exact ⟨_, fromHand, ((List.singleton_sublist.mpr member).cons_cons second).trans
        (List.sublist_append_right coming _)⟩
  · intro first second moment since σ owners accessed refusal state left request owner page result
      after steady willing bits yields
    obtain ⟨⟨reachable, distinct, order, fromHand, precedes⟩, clear⟩ := since.ordered
    obtain ⟨ring, wellFormed⟩ := reachable.wellFormed
    obtain ⟨frame, _, rfl, differs, _⟩ := (FrameTable.acquire_precedes wellFormed distinct fromHand
      precedes steady willing (bits ▸ clear) request owner page).of_yields yields
    rintro ⟨⟩
    exact differs rfl

theorem owns_of_frames {table : FrameTable arch} (reachable : table.Reachable)
    (pages : List (FrameNumber × ProcessId × PageNumber))
    (frames : table.pool.frames = pages.map Prod.fst)
    (owners : ∀ known ∈ pages, table.ownerOf known.1 = some known.2) {frame : FrameNumber}
    {owner : ProcessId × PageNumber} (owned : table.ownerOf frame = some owner) :
    (frame, owner) ∈ pages := by
  obtain ⟨ring, wellFormed⟩ := reachable.wellFormed
  have inside := FramePool.mem_frames.mpr
    (wellFormed.inside_of_tracked (FrameTable.mem_of_ownerOf owned))
  rw [frames] at inside
  obtain ⟨known, listed, rfl⟩ := List.mem_map.mp inside
  cases (owners known listed).symm.trans owned
  exact listed

theorem distinct_of_frames {table : FrameTable arch} (reachable : table.Reachable)
    (pages : List (FrameNumber × ProcessId × PageNumber))
    (frames : table.pool.frames = pages.map Prod.fst)
    (owners : ∀ known ∈ pages, table.ownerOf known.1 = some known.2)
    (nodup : (pages.map Prod.snd).Nodup) : table.Distinct := by
  intro frame other owner owned owned'
  have listed := owns_of_frames reachable pages frames owners owned
  have listed' := owns_of_frames reachable pages frames owners owned'
  exact congrArg Prod.fst (List.inj_on_of_nodup_map nodup listed listed' rfl)

/-- Of two frames the second one joins the queue behind the first, which the hand is on, and is not
the one that is taken. -/
theorem acquire_order_two : ∃ (table marked after : FrameTable .scaleModel) (left : OwnerScript)
    (result : Except VmError FrameNumber), table.Reachable ∧
      table.markNotReferenced ⟨17⟩ = .ok (true, marked) ∧ marked.Precedes ⟨16⟩ ⟨17⟩ ∧
      (marked.acquire OwnerScript.owners {} {} ⟨1⟩ ⟨3⟩).Yields (result, after, left) ∧
      result ≠ .ok ⟨17⟩ := by
  let start : FrameTable .scaleModel :=
    { pool := { base := ⟨16⟩, total := 2, free := [⟨16⟩, ⟨17⟩], access := .hosted } }
  have passes : (start.acquire OwnerScript.owners {} {} ⟨1⟩ ⟨1⟩).passes (fun (_, one, script) =>
      (one.acquire OwnerScript.owners script {} ⟨1⟩ ⟨2⟩).passes fun (_, two, _) =>
        (liftM (two.markNotReferenced ⟨16⟩) : Run _).passes fun (_, table) =>
          (liftM (table.markNotReferenced ⟨17⟩) : Run _).passes fun (known, marked) =>
            (marked.acquire OwnerScript.owners {} {} ⟨1⟩ ⟨3⟩).passes fun _ => known &&
              table.inOrder == [⟨16⟩] && marked.pool.frames == [⟨16⟩, ⟨17⟩] &&
              marked.ownerOf ⟨16⟩ == some (⟨1⟩, ⟨1⟩) &&
              marked.ownerOf ⟨17⟩ == some (⟨1⟩, ⟨2⟩)) = true := by
    decide +kernel
  simp only [Run.passes_iff, Bool.and_eq_true, Prod.exists, beq_iff_eq] at passes
  obtain ⟨_, one, _, obtained, _, two, _, obtained', _, table, marked16, _, marked, marks, result,
    after, left, obtained3, ⟨⟨⟨rfl, order⟩, frames⟩, owner16⟩, owner17⟩ := passes
  have made : FramePool.new ⟨16⟩ 2 .hosted = .ok start.pool := rfl
  have booted : start.Reachable := .new made ∅
  have reachable : table.Reachable := .mark (.acquire (.acquire booted obtained) obtained') marked16
  have reachable' : marked.Reachable := .mark reachable marks
  have distinct : marked.Distinct :=
    distinct_of_frames reachable' [(⟨16⟩, ⟨1⟩, ⟨1⟩), (⟨17⟩, ⟨1⟩, ⟨2⟩)] frames
      (by simp [owner16, owner17]) (by decide)
  obtain ⟨joins, protects⟩ := @acquire_order .scaleModel
  have outside : ¬table.Queued ⟨17⟩ := by
    rw [reachable.queued_iff, order]
    decide
  obtain ⟨passed, coming, isQueue, fromHand, nonempty, ahead⟩ :=
    joins table marked ⟨17⟩ reachable outside marks
  have only : coming ++ passed = [⟨16⟩] := by
    obtain ⟨ring, wellFormed⟩ := reachable.wellFormed
    rw [← order, fromHand.inOrder_eq wellFormed.isRing]
  have awaited : ⟨16⟩ ∈ coming := by
    cases coming with
    | nil => simp [nonempty rfl] at only
    | cons hand coming =>
        rw [List.cons_append, List.cons.injEq] at only
        exact only.1 ▸ List.mem_cons_self
  have precedes := (ahead ⟨16⟩).1 awaited
  have since : (⟨marked, fun _ => false⟩ : Moment .scaleModel).Since (Ordered ⟨16⟩ ⟨17⟩) ⟨16⟩ ⟨17⟩ :=
    .start ⟨reachable', distinct, precedes⟩ (by simp [pageIn, owner16])
  refine ⟨table, marked, after, left, result, reachable, marks, precedes, obtained3, ?_⟩
  exact protects ⟨16⟩ ⟨17⟩ _ since OwnerScript.owners _ _ {} left {} ⟨1⟩ ⟨3⟩ result after
    (OwnerScript.owners_steady.weaken fun _ _ => trivial) (fun _ => rfl) (by simp) obtained3

/-- Of three frames the first one's page is accessed, so the second one is taken first and the hand
passes the first one. The second one joins the queue again with the hand on the third, which is
taken next; and then the second one goes, though the page in the first one has not been accessed
since it joined. -/
theorem newer_taken_first : ∃ (moment : Moment .scaleModel) (after : FrameTable .scaleModel)
    (state left : OwnerScript), moment.Since (Joins ⟨16⟩ ⟨17⟩) ⟨16⟩ ⟨17⟩ ∧
      moment.accessed = state.accessed.contains ∧ state.refusals = [] ∧
      (∀ frame, moment.table.ownerOf frame ≠ some (⟨1⟩, ⟨6⟩)) ∧
      (moment.table.acquire OwnerScript.owners state {} ⟨1⟩ ⟨6⟩).Yields (.ok ⟨17⟩, after, left) := by
  have passes : (FrameTable.filled 3).passes (fun table =>
      (table.acquire OwnerScript.owners { accessed := [(⟨1⟩, ⟨1⟩)] } {} ⟨1⟩ ⟨4⟩).passes
        fun (_, four, script) =>
          (liftM (four.markNotReferenced ⟨17⟩) : Run _).passes fun (known, joined) =>
            (joined.acquire OwnerScript.owners script {} ⟨1⟩ ⟨5⟩).passes fun (_, five, later) =>
              (five.acquire OwnerScript.owners later {} ⟨1⟩ ⟨6⟩).passes
                fun (result, _, _) => known && result.toOption == some ⟨17⟩ &&
                  [four, joined, five].map (·.pool.frames) ==
                    List.replicate 3 [⟨16⟩, ⟨17⟩, ⟨18⟩] &&
                  [⟨16⟩, ⟨17⟩, ⟨18⟩].map four.ownerOf ==
                    [some (⟨1⟩, ⟨1⟩), some (⟨1⟩, ⟨4⟩), some (⟨1⟩, ⟨3⟩)] &&
                  [⟨16⟩, ⟨17⟩, ⟨18⟩].map joined.ownerOf ==
                    [some (⟨1⟩, ⟨1⟩), some (⟨1⟩, ⟨4⟩), some (⟨1⟩, ⟨3⟩)] &&
                  [⟨16⟩, ⟨17⟩, ⟨18⟩].map five.ownerOf ==
                    [some (⟨1⟩, ⟨1⟩), some (⟨1⟩, ⟨4⟩), some (⟨1⟩, ⟨5⟩)] &&
                  [four, five].map (·.inOrder) == [[⟨18⟩, ⟨16⟩], [⟨17⟩, ⟨16⟩]] &&
                  script.accessed == [] && later.accessed == [] &&
                  script.refusals == [] && later.refusals == []) = true := by
    decide +kernel
  simp only [Run.passes_iff, Bool.and_eq_true, Prod.exists, beq_iff_eq, List.map_cons,
    List.map_nil, List.replicate, List.cons.injEq, and_true] at passes
  obtain ⟨table, made, _, four, script, obtained4, known, joined, joins, _, five, later, obtained5,
    result, after, left, obtained6, ⟨⟨⟨⟨⟨⟨⟨⟨⟨rfl, gone⟩, frames4, framesJ, frames5⟩, owners4⟩,
    ownersJ⟩, owners5⟩, order4, order5⟩, clear⟩, clear'⟩, refusals⟩, refusals'⟩ := passes
  obtain rfl : result = .ok ⟨17⟩ := by
    cases result with
    | ok frame => exact congrArg Except.ok (Option.some.inj gone)
    | error cause => cases gone
  have reachable4 : four.Reachable := .acquire (FrameTable.filled_reachable made) obtained4
  have reachableJ : joined.Reachable := .mark reachable4 joins
  have reachable5 : five.Reachable := .acquire reachableJ obtained5
  have distinct : four.Distinct :=
    distinct_of_frames reachable4 [(⟨16⟩, ⟨1⟩, ⟨1⟩), (⟨17⟩, ⟨1⟩, ⟨4⟩), (⟨18⟩, ⟨1⟩, ⟨3⟩)] frames4
      (by simp [owners4]) (by decide)
  have outside : ¬four.Queued ⟨17⟩ := by
    rw [reachable4.queued_iff, order4]
    decide
  have inside : four.Queued ⟨16⟩ := by
    rw [reachable4.queued_iff, order4]
    decide
  have freshJ (frame : FrameNumber) : joined.ownerOf frame ≠ some (⟨1⟩, ⟨5⟩) := fun owned => by
    simpa using owns_of_frames reachableJ [(⟨16⟩, ⟨1⟩, ⟨1⟩), (⟨17⟩, ⟨1⟩, ⟨4⟩), (⟨18⟩, ⟨1⟩, ⟨3⟩)]
      framesJ (by simp [ownersJ]) owned
  have fresh5 (frame : FrameNumber) : five.ownerOf frame ≠ some (⟨1⟩, ⟨6⟩) := fun owned => by
    simpa using owns_of_frames reachable5 [(⟨16⟩, ⟨1⟩, ⟨1⟩), (⟨17⟩, ⟨1⟩, ⟨4⟩), (⟨18⟩, ⟨1⟩, ⟨5⟩)]
      frames5 (by simp [owners5]) owned
  have since : (⟨joined, script.accessed.contains⟩ : Moment .scaleModel).Since
      (Joins ⟨16⟩ ⟨17⟩) ⟨16⟩ ⟨17⟩ :=
    .start ⟨four, reachable4, distinct, inside, outside, joins⟩
      (by simp [pageIn, ownersJ.1, clear])
  have willing (page : ProcessId × PageNumber) : script.refusals.lookup page = none := by
    rw [refusals, List.lookup_nil]
  have steady := OwnerScript.owners_steady.weaken fun _ _ => trivial
  have step := Step.acquire steady willing freshJ obtained5
  refine ⟨⟨five, later.accessed.contains⟩, after, later, left, .step since step ?_ ?_ ?_, rfl,
    refusals', fresh5, obtained6⟩
  · rw [reachable5.queued_iff, order5]
    decide
  · rw [reachable5.queued_iff, order5]
    decide
  · simp [pageIn, owners5.1, clear']

end Moment
end DemandPaging
