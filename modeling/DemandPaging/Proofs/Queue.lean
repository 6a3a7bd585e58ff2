import Mathlib.Data.List.Cycle
import DemandPaging.Frame.Script
import DemandPaging.Proofs.Extent
import DemandPaging.Proofs.Reachable

/-!
The ring of frames as a queue. In every state that a frame table can be in, for whatever
owners, the links of its records lead round a list of frames without repetition. Frames join
the list at its end and leave it from anywhere, and the hand steps off a frame that leaves.
-/

namespace DemandPaging

theorem Circular.step {α : Type} {follows : α → α → Prop} {circle : List α}
    (circular : Circular follows circle) {i : Nat} {a b : α} (here : circle[i]? = some a)
    (onward : circle[(i + 1) % circle.length]? = some b) : follows a b := by
  obtain ⟨small, rfl⟩ := List.getElem?_eq_some_iff.mp here
  have nonempty : circle ≠ [] := List.ne_nil_of_length_pos (by omega)
  obtain ⟨chain, closes⟩ := (Circular.iff_of_ne_nil nonempty).mp circular
  by_cases last : i + 1 = circle.length
  · rw [last, Nat.mod_self, ← List.head?_eq_getElem?, List.head?_eq_some_head nonempty] at onward
    rw [List.getLast_eq_getElem, Option.some.inj onward] at closes
    simpa [← last] using closes
  · rw [Nat.mod_eq_of_lt (by omega), List.getElem?_eq_getElem (by omega)] at onward
    rw [← Option.some.inj onward]
    exact List.isChain_iff_getElem.mp chain i (by omega)

variable {arch : Architecture} {σ : Type} {tolerated unreached : Violation → Prop}

namespace FrameTable

variable {table left : FrameTable arch} {ring queue : List FrameNumber} {frame : FrameNumber}
  {index : FrameIndex}

/-- Where so many forward links lead to from a frame. -/
def walk (table : FrameTable arch) (frame : FrameNumber) : Nat → Option FrameNumber
  | 0 => some frame
  | steps + 1 => (table.next? frame).bind fun next => table.walk next steps

namespace IsRing

theorem next?_eq (isRing : table.IsRing ring) (member : frame ∈ ring) :
    table.next? frame = some (ring.next frame member) := by
  obtain ⟨i, small, rfl⟩ := List.getElem_of_mem member
  rw [List.next_getElem ring isRing.nodup]
  exact (isRing.circular.step (List.getElem?_eq_getElem small) (List.getElem?_eq_getElem _)).1

theorem prev?_eq (isRing : table.IsRing ring) (member : frame ∈ ring) :
    table.prev? frame = some (ring.prev frame member) := by
  obtain ⟨i, small, before⟩ := List.getElem_of_mem (List.prev_mem ring frame member)
  have onward : ring[(i + 1) % ring.length]? = some frame := by
    rw [List.getElem?_eq_getElem (Nat.mod_lt _ (by omega)), ← List.next_getElem ring isRing.nodup i
      small]
    simp only [before, List.next_prev ring isRing.nodup]
  rw [← before]
  exact (isRing.circular.step (List.getElem?_eq_getElem small) onward).2

theorem walk_eq (isRing : table.IsRing ring) {i : Nat} (small : i < ring.length) (steps : Nat) :
    table.walk ring[i] steps = ring[(i + steps) % ring.length]? := by
  induction steps generalizing i with
  | zero => simp [walk, Nat.mod_eq_of_lt small, List.getElem?_eq_getElem small]
  | succ steps ih =>
      have onward : (i + 1) % ring.length < ring.length := Nat.mod_lt _ (by omega)
      unfold walk
      rw [isRing.next?_eq (List.getElem_mem small), List.next_getElem ring isRing.nodup,
        Option.bind_some, ih onward, Nat.mod_add_mod, Nat.add_assoc, Nat.add_comm 1]

end IsRing

/-- The links of the table lead round this list of frames: those marked not referenced, from the
head on, each of them once. -/
structure IsQueue (table : FrameTable arch) (queue : List FrameNumber) : Prop where
  nodup : queue.Nodup
  mem_iff : ∀ frame, frame ∈ queue ↔
    ∃ record, table.find? frame = some record ∧ record.referenced = false
  queued : table.queued = queue.length
  head : table.head = queue.head?
  visits : ∀ steps, (table.head.bind fun head => table.walk head steps) =
    queue[steps % table.queued]?
  inverse : ∀ frame other, frame ∈ queue → other ∈ queue →
    (table.next? frame = some other ↔ table.prev? other = some frame)
  hand : ∀ frame, table.hand = some frame → frame ∈ queue
  head_none : table.head = none ↔ queue = []
  hand_none : table.hand = none ↔ queue = []

theorem IsRing.isQueue (isRing : table.IsRing ring) : table.IsQueue ring := by
  refine ⟨isRing.nodup, ?_, isRing.counted, isRing.head, ?_, ?_, isRing.hand, ?_, ?_⟩
  · intro frame
    rw [isRing.queued]
    exact Option.map_eq_some_iff
  · intro steps
    rw [isRing.counted, isRing.head]
    cases ring with
    | nil => rfl
    | cons first rest =>
        have walked := isRing.walk_eq (show 0 < (first :: rest).length from Nat.succ_pos _) steps
        rwa [Nat.zero_add] at walked
  · intro frame other member inside
    rw [isRing.next?_eq member, isRing.prev?_eq inside, Option.some.injEq, Option.some.injEq]
    constructor
    · rintro rfl
      exact List.prev_next ring isRing.nodup frame member
    · rintro rfl
      exact List.next_prev ring isRing.nodup other inside
  · rw [isRing.head, List.head?_eq_none_iff]
  · refine ⟨isRing.stopped, ?_⟩
    rintro rfl
    cases pointed : table.hand with
    | none => rfl
    | some frame => cases isRing.hand frame pointed

/-- Two lists that the links lead round are the same. -/
theorem IsQueue.unique (isQueue : table.IsQueue queue) (again : table.IsQueue ring) :
    queue = ring := by
  refine List.ext_getElem? fun i => ?_
  by_cases small : i < table.queued
  · have here := isQueue.visits i
    rw [again.visits i, Nat.mod_eq_of_lt small] at here
    exact here.symm
  · rw [List.getElem?_eq_none (by rw [← isQueue.queued]; omega),
      List.getElem?_eq_none (by rw [← again.queued]; omega)]

/-- The hand after a frame has left the queue: if it was on the frame it is on the next one
around, and else it is where it was. -/
structure StepsPast (table : FrameTable arch) (queue : List FrameNumber) (frame : FrameNumber)
    (left : FrameTable arch) : Prop where
  stays : table.hand ≠ some frame → left.hand = table.hand
  moves : ∀ member : frame ∈ queue, table.hand = some frame →
    left.hand = if queue = [frame] then none else some (queue.next frame member)

/-- A frame has left the queue, in which the others keep their order. -/
structure Dequeues (table : FrameTable arch) (queue : List FrameNumber) (frame : FrameNumber)
    (left : FrameTable arch) : Prop extends table.StepsPast queue frame left where
  isQueue : left.IsQueue (queue.erase frame)

theorem StepsPast.congr {same : FrameTable arch} (stepsPast : table.StepsPast queue frame left)
    (hand : same.hand = left.hand) : table.StepsPast queue frame same :=
  ⟨fun elsewhere => hand.trans (stepsPast.stays elsewhere),
    fun member here => hand.trans (stepsPast.moves member here)⟩

theorem modifyRecord_hand {change : FrameRecord → FrameRecord} :
    (table.modifyRecord index change).Satisfies (fun _ => True) fun left =>
      left.hand = table.hand := by
  refine .mono modifyRecord_rest fun left rest => ?_
  rw [rest]
  rfl

theorem bypass_hand {record : FrameRecord} (place : table.pool.frameAt index = frame)
    (found : table.find? frame = some record) :
    (table.bypass index).Satisfies (fun _ => True) fun left =>
      left.hand = if table.hand = some frame then some (table.pool.frameAt record.next)
        else table.hand := by
  unfold bypass
  rw [record_eq place found, Checked.ok_bind]
  refine .bind modifyRecord_rest fun joined first => ?_
  refine .bind modifyRecord_rest fun closed second => .pure ?_
  have same : closed.pool = table.pool ∧ closed.handIndex = table.handIndex := by
    rw [second, first]
    exact ⟨rfl, rfl⟩
  change (if closed.handIndex = some index then some record.next else closed.handIndex).map
    closed.pool.frameAt = _
  rw [same.1, same.2, FramePool.map_past place]
  rfl

theorem unlink_hand {record : FrameRecord} (place : table.pool.frameAt index = frame)
    (found : table.find? frame = some record) :
    (table.unlink index).Satisfies (fun _ => True) fun left =>
      left.hand = if table.queued = 1 then none
        else if table.hand = some frame then some (table.pool.frameAt record.next)
        else table.hand := by
  unfold unlink
  split
  · rw [pure_bind]
    exact .bind .any fun _ _ => .pure rfl
  · exact .bind (bypass_hand place found) fun left hand => .bind .any fun _ _ => .pure hand

theorem link_hand (place : table.pool.frameAt index = frame) :
    (table.link index).Satisfies (fun _ => True) fun left =>
      left.hand = if table.head = none then some frame else table.hand := by
  have closes : ∀ joined : FrameTable arch, (do
      let linked ← joined.modifyRecord index fun record => { record with referenced := false }
      return { linked with queued := linked.queued + 1 } :
        Checked (FrameTable arch)).Satisfies (fun _ => True) fun left => left.hand = joined.hand :=
    fun joined => .bind modifyRecord_hand fun linked hand => .pure hand
  unfold link
  cases pointed : table.headIndex with
  | none =>
      rw [if_pos (show table.head = none from Option.map_eq_none_iff.mpr pointed), ← place]
      refine .bind modifyRecord_rest fun alone rest => .mono (closes _) fun left hand => ?_
      rw [hand, rest]
      rfl
  | some head =>
      rw [if_neg (by simp [FrameTable.head, pointed])]
      refine .bind .any fun record _ => ?_
      refine .bind modifyRecord_hand fun joining hjoining => ?_
      refine .bind modifyRecord_hand fun after hafter => ?_
      refine .bind modifyRecord_hand fun before hbefore => ?_
      refine .mono (closes before) fun left hand => ?_
      exact hand.trans (hbefore.trans (hafter.trans hjoining))

/-- A frame that leaves the ring leaves the hand behind it. -/
theorem unlink_stepsPast (isRing : table.IsRing ring) (place : table.pool.frameAt index = frame)
    (member : frame ∈ ring) :
    (table.unlink index).Satisfies (fun _ => True) (table.StepsPast ring frame) := by
  obtain ⟨record, found⟩ := mem_iff.mp (isRing.mem member)
  have next : table.pool.frameAt record.next = ring.next frame member :=
    Option.some.inj ((field?_of_find? found _).symm.trans (isRing.next?_eq member))
  have alone : table.queued = 1 ↔ ring = [frame] := by
    rw [isRing.counted, List.length_eq_one_iff]
    constructor
    · rintro ⟨other, rfl⟩
      rw [List.mem_singleton.mp member]
    · rintro rfl
      exact ⟨frame, rfl⟩
  refine .mono (unlink_hand place found) fun left hand => ?_
  simp only [next, alone] at hand
  refine ⟨fun elsewhere => ?_, fun _ here => ?_⟩
  · rw [hand, if_neg elsewhere, if_neg]
    -- the hand of a ring of one frame is on that frame
    rintro rfl
    cases pointed : table.hand with
    | none => cases isRing.stopped pointed
    | some other =>
        rw [List.mem_singleton.mp (isRing.hand other pointed)] at pointed
        exact elsewhere pointed
  · rw [hand, if_pos here]

theorem clear_hand : (table.clear index).Satisfies (fun _ => True) fun left =>
    left.hand = table.hand := by
  refine .mono clear_rest fun left rest => ?_
  rw [rest]
  rfl

theorem release_stepsPast (isRing : table.IsRing ring) (tracked : frame ∈ table) :
    (table.release frame).Satisfies (fun _ => True) (table.StepsPast ring frame) := by
  obtain ⟨record, found⟩ := mem_iff.mp tracked
  obtain ⟨index, place⟩ := exists_index tracked
  have unlinks : (if record.referenced then pure table else table.unlink index).Satisfies
      (fun _ => True) (table.StepsPast ring frame) := by
    by_cases held : record.referenced = true
    · have outside : frame ∉ ring := by
        rw [isRing.mem_iff found, held]
        decide
      rw [if_pos held]
      exact .pure ⟨fun _ => rfl, fun member => absurd member outside⟩
    · rw [if_neg held]
      have member : frame ∈ ring := (isRing.mem_iff found).mpr ((Bool.not_eq_true _).mp held)
      exact unlink_stepsPast isRing (FramePool.indexOf?_eq_some.mp place).2 member
  unfold release
  rw [FramePool.indexOf_eq place, Checked.ok_bind, entry_eq place found, Checked.ok_bind]
  refine .bind unlinks fun unlinked stepsPast => .bind clear_hand fun cleared hand => ?_
  refine .bind FramePool.deallocate_rest ?_
  rintro _ rfl
  exact .pure (stepsPast.congr hand)

theorem drop_stepsPast (isRing : table.IsRing ring) (place : table.pool.frameAt index = frame)
    (member : frame ∈ ring) :
    (table.drop index).Satisfies (fun _ => True) (table.StepsPast ring frame) := by
  unfold drop
  refine .bind (unlink_stepsPast isRing place member) fun unlinked stepsPast => ?_
  exact .mono clear_hand fun left hand => stepsPast.congr hand

theorem release_dequeues (wellFormed : table.WellFormed unreached ring)
    (tracked : frame ∈ table) :
    (table.release frame).Satisfies tolerated fun released =>
      released.WellFormed unreached (ring.erase frame) ∧ table.Dequeues ring frame released := by
  refine .mono (.and (release_satisfies wellFormed tracked)
    (release_stepsPast wellFormed.isRing tracked)) ?_
  rintro released ⟨⟨wellFormed', _⟩, stepsPast⟩
  exact ⟨wellFormed', stepsPast, wellFormed'.isRing.isQueue⟩

theorem mem_of_release (done : table.release frame = .ok left) : frame ∈ table := by
  by_contra untracked
  have missing := find?_eq_none.mpr untracked
  unfold release at done
  cases place : table.pool.indexOf? frame with
  | none =>
      unfold FramePool.indexOf at done
      rw [place] at done
      cases done
  | some index =>
      rw [FramePool.indexOf_eq place, Checked.ok_bind] at done
      rw [find?_of_index place] at missing
      unfold entry at done
      cases held : table.records[index.value]? with
      | none =>
          rw [held] at done
          cases done
      | some entry =>
          rw [held, Option.join_some] at missing
          rw [held, missing] at done
          cases done

/-- A frame joins the queue at its end when it is first marked. -/
theorem markNotReferenced_enqueues (wellFormed : table.WellFormed unreached ring)
    (tracked : frame ∈ table) (held : frame ∉ ring) :
    (table.markNotReferenced frame).Satisfies tolerated fun (known, marked) =>
      known = true ∧ marked.WellFormed unreached (ring ++ [frame]) ∧
        marked.hand = if ring = [] then some frame else table.hand := by
  obtain ⟨record, found⟩ := mem_iff.mp tracked
  obtain ⟨index, place⟩ := exists_index tracked
  have referenced : record.referenced = true := by
    rwa [wellFormed.isRing.mem_iff found, Bool.not_eq_false] at held
  have pointed : (table.markNotReferenced frame).Satisfies (fun _ => True) fun (_, marked) =>
      marked.hand = if table.head = none then some frame else table.hand := by
    unfold markNotReferenced
    simp only [place, entry_eq place found, Checked.ok_bind, if_pos referenced]
    exact .bind (link_hand (FramePool.indexOf?_eq_some.mp place).2) fun linked hand => .pure hand
  refine .mono (.and (markNotReferenced_satisfies wellFormed tracked held) pointed) ?_
  rintro ⟨known, marked⟩ ⟨⟨rfl, wellFormed', _⟩, hand⟩
  refine ⟨rfl, wellFormed', hand.trans ?_⟩
  simp only [wellFormed.isRing.head, List.head?_eq_none_iff]

theorem markNotReferenced_eq (wellFormed : table.WellFormed unreached ring)
    (settled : frame ∈ table → frame ∈ ring) :
    table.markNotReferenced frame = .ok (decide (frame ∈ table), table) := by
  unfold markNotReferenced
  by_cases tracked : frame ∈ table
  · obtain ⟨record, found⟩ := mem_iff.mp tracked
    obtain ⟨index, place⟩ := exists_index tracked
    have queued := (wellFormed.isRing.mem_iff found).mp (settled tracked)
    simp only [place, entry_eq place found, Checked.ok_bind, queued, tracked]
    rfl
  · cases place : table.pool.indexOf? frame with
    | none => simp only [tracked]; rfl
    | some index =>
        simp only [entry_of_untracked place (wellFormed.lt_size place) tracked, Checked.ok_bind,
          tracked]
        rfl

section Acquire

variable {owners : FrameOwners σ} {state : σ}

theorem scan_mem (isRing : table.IsRing ring) (member : table.pool.frameAt index ∈ ring) :
    (table.scan owners index state).Satisfies (fun _ => True) fun (victim, _) =>
      table.pool.frameAt victim ∈ ring := by
  refine .iterate (fun (index, _) => table.pool.frameAt index ∈ ring) ?_ _ member
  rintro ⟨index, state⟩ member
  obtain ⟨record, found⟩ := mem_iff.mp (isRing.mem member)
  dsimp only
  rw [test_eq rfl found]
  dsimp only
  split
  · exact .bind .log fun _ _ => .pure (isRing.next_mem found member)
  · exact .pure member

/-- A search that ends with a frame has dropped that frame and nothing else; one that fails has
moved the hand only. -/
theorem evictWithin_ends (attempts : Nat) :
    (table.evictWithin owners attempts state).Satisfies (fun _ => True)
      fun (result, left, _) =>
        match result with
        | .ok frame => ∃ victim dropped, table.pool.frameAt victim = frame ∧
            FrameTable.drop { table with handIndex := some victim } victim = .ok dropped ∧
            left = { dropped with evictions := dropped.evictions + 1 }
        | .error _ => left = { table with handIndex := left.handIndex } := by
  induction attempts using Nat.strong_induction_on generalizing table state with
  | _ attempts ih =>
      unfold evictWithin
      split
      · exact .pure rfl
      · refine .bind .any ?_
        rintro ⟨victim, searched⟩ _
        refine .bind (.lift .any) fun record _ => .bind (.lift .any) fun contents _ => .bind .any ?_
        rintro ⟨result, moved⟩ _
        cases result with
        | ok _ =>
            have drops : (FrameTable.drop { table with handIndex := some victim } victim).Satisfies
                (fun _ => True) fun dropped =>
                  FrameTable.drop { table with handIndex := some victim } victim = .ok dropped :=
              .of_errors fun _ _ => trivial
            exact .bind (.lift drops) fun dropped done => .bind .log fun _ _ =>
              .pure ⟨victim, dropped, rfl, done, rfl⟩
        | error cause =>
            refine .bind .log fun _ _ => ?_
            obtain _ | _ | fewer := attempts
            · trivial
            · exact .pure rfl
            · refine .mono (ih (fewer + 1) (Nat.lt_succ_self _)) ?_
              rintro ⟨result, left, _⟩ ended
              cases result with
              | ok frame => exact ended
              | error cause => exact ended

/-- Whatever the owners answer, a frame that is taken away leaves the queue with the hand on it,
and a search without success leaves the queue as it was. -/
theorem evictWithin_dequeues (wellFormed : table.WellFormed (fun _ => True) ring)
    (attempts : Nat) :
    (table.evictWithin owners attempts state).Satisfies (fun _ => True)
      fun (result, left, _) =>
        match result with
        | .ok frame => frame ∈ ring ∧ (table.point frame).StepsPast ring frame left ∧
            (left.offer frame).WellFormed (fun _ => True) (ring.erase frame)
        | .error _ => left.WellFormed (fun _ => True) ring := by
  induction attempts using Nat.strong_induction_on generalizing table state with
  | _ attempts ih =>
      unfold evictWithin
      cases pointed : table.handIndex with
      | none => exact .pure wellFormed
      | some hand =>
          refine .bind (scan_mem wellFormed.isRing (wellFormed.isRing.hand _ (hand_eq pointed))) ?_
          rintro ⟨index, searched⟩ victim
          have tracked := wellFormed.isRing.mem victim
          obtain ⟨record, found⟩ := mem_iff.mp tracked
          refine .bind (.lift (.of_eq (record_eq rfl found) rfl)) ?_
          rintro _ rfl
          refine .bind (.lift .any) fun contents _ => .bind .any ?_
          rintro ⟨result, searched⟩ _
          have onward := wellFormed.isRing.next_mem found victim
          cases result with
          | ok _ =>
              have aimed := wellFormed.pointIndex victim
              refine .bind (.lift (.and (drop_satisfies aimed rfl victim)
                (drop_stepsPast aimed.isRing rfl victim))) ?_
              rintro dropped ⟨⟨offered, _⟩, stepsPast⟩
              have inside := wellFormed.inside_of_tracked tracked
              rw [point_eq (FramePool.indexOf?_eq_some.mpr ⟨inside, rfl⟩)] at stepsPast
              refine .bind .log fun _ _ => ?_
              exact .pure ⟨victim, stepsPast.congr rfl, offered.recount _⟩
          | error cause =>
              refine .bind .log fun _ _ => ?_
              obtain _ | _ | fewer := attempts
              · trivial
              · exact .pure (wellFormed.pointIndex onward)
              · exact ih (fewer + 1) (Nat.lt_succ_self _) (wellFormed.pointIndex onward)

theorem track_hand (request : FrameRequest) (owner : ProcessId) (page : PageNumber) :
    (table.track frame request owner page).Satisfies (fun _ => True) fun tracking =>
      tracking.hand = table.hand := by
  refine .mono (track_enters request owner page) ?_
  rintro _ ⟨index, _, _, rfl⟩
  split <;> rfl

/-- What an acquisition makes of the queue. A frame that was free leaves it alone, one that was
taken away has left it, and without a frame the hand alone has moved. -/
def Acquires (table : FrameTable arch) (queue : List FrameNumber)
    (result : Except VmError FrameNumber) (after : FrameTable arch) : Prop :=
  match result with
  | .ok frame =>
    (frame ∈ table.pool.free → after.IsQueue queue ∧ after.hand = table.hand) ∧
      (frame ∉ table.pool.free → frame ∈ queue ∧ (table.point frame).Dequeues queue frame after)
  | .error _ => after.IsQueue queue

theorem acquire_acquires (wellFormed : table.WellFormed (fun _ => True) ring)
    (request : FrameRequest) (owner : ProcessId) (page : PageNumber) :
    (table.acquire owners state request owner page).Satisfies (fun _ => True)
      fun (result, after, _) => table.Acquires ring result after ∧
        ∃ ring, after.WellFormed (fun _ => True) ring := by
  unfold acquire FramePool.allocate
  cases stack : table.pool.free with
  | cons frame free =>
      have offered := wellFormed.offer_first stack
      refine .bind (.lift (.and (track_satisfies offered request owner page)
        (track_hand request owner page))) ?_
      rintro after ⟨⟨wellFormed', _⟩, hand⟩
      have free : frame ∈ table.pool.free := stack ▸ List.mem_cons_self
      exact .pure ⟨⟨fun _ => ⟨wellFormed'.isRing.isQueue, hand⟩, absurd free⟩, ring, wellFormed'⟩
  | nil =>
      refine .bind (evictWithin_dequeues wellFormed _) ?_
      rintro ⟨result, left, state⟩ outcome
      cases result with
      | ok frame =>
          obtain ⟨member, stepsPast, offered⟩ := outcome
          refine .bind (.lift (.and (track_satisfies offered request owner page)
            (track_hand request owner page))) ?_
          rintro after ⟨⟨wellFormed', _⟩, hand⟩
          have taken : frame ∉ table.pool.free := stack ▸ List.not_mem_nil
          refine .pure ⟨⟨(absurd · taken), fun _ => ⟨member, ?_⟩⟩, _, wellFormed'⟩
          exact ⟨stepsPast.congr hand, wellFormed'.isRing.isQueue⟩
      | error cause =>
          dsimp only
          split
          · trivial
          · exact .pure ⟨outcome.isRing.isQueue, ring, outcome⟩

end Acquire

/-- A frame table that some run of operations leads to from one without frames in use, over any
pool and for owners of any kind. -/
inductive Reachable : FrameTable arch → Prop
  | new {base : FrameNumber} {total : Nat} {access : FrameAccess} {pool : FramePool arch}
      (made : FramePool.new base total access = .ok pool) (contents : NumberMap .frame Page) :
      Reachable { pool := { pool with contents } }
  | acquire {σ : Type} {table after : FrameTable arch} {owners : FrameOwners σ} {state left : σ}
      {request : FrameRequest} {owner : ProcessId} {page : PageNumber}
      {result : Except VmError FrameNumber} (reachable : Reachable table)
      (yields : (table.acquire owners state request owner page).Yields (result, after, left)) :
      Reachable after
  | mark {table after : FrameTable arch} {frame : FrameNumber} {known : Bool}
      (reachable : Reachable table) (done : table.markNotReferenced frame = .ok (known, after)) :
      Reachable after
  | release {table after : FrameTable arch} {frame : FrameNumber} (reachable : Reachable table)
      (done : table.release frame = .ok after) : Reachable after
  | write {table after : FrameTable arch} {frame : FrameNumber} {contents : Page}
      (reachable : Reachable table) (done : table.setBytes frame contents = .ok after) :
      Reachable after

theorem Reachable.wellFormed (reachable : table.Reachable) :
    ∃ ring, table.WellFormed (fun _ => True) ring := by
  induction reachable with
  | new made contents =>
      exact ⟨[], empty_wellFormed made fun _ _ => ⟨fun _ _ => trivial, fun _ _ => trivial⟩⟩
  | acquire reachable yields ih =>
      obtain ⟨ring, wellFormed⟩ := ih
      exact ((acquire_acquires wellFormed _ _ _).of_yields yields).2
  | @mark table after frame known reachable done ih =>
      obtain ⟨ring, wellFormed⟩ := ih
      by_cases settled : frame ∈ table → frame ∈ ring
      · cases done.symm.trans (markNotReferenced_eq wellFormed settled)
        exact ⟨ring, wellFormed⟩
      · obtain ⟨tracked, held⟩ := Classical.not_imp.mp settled
        have marked : (table.markNotReferenced frame).Satisfies (fun _ => True) _ :=
          markNotReferenced_enqueues wellFormed tracked held
        rw [done] at marked
        exact ⟨_, marked.2.1⟩
  | @release table after frame reachable done ih =>
      obtain ⟨ring, wellFormed⟩ := ih
      have released : (table.release frame).Satisfies (fun _ => True) _ :=
        release_dequeues wellFormed (mem_of_release done)
      rw [done] at released
      exact ⟨_, released.1⟩
  | @write table after frame contents reachable done ih =>
      obtain ⟨ring, wellFormed⟩ := ih
      exact ⟨ring, setBytes_eq done ▸ wellFormed.refill contents⟩

/-- In every reachable state the ring is a queue. Marking a frame in use for the first time puts
it at the end and marking it again changes nothing; a frame that is given back, or taken away to
serve another page, leaves the queue in the order it was. A frame that leaves takes the hand one
step on if the hand is on it, which in the search for a victim it always is. -/
theorem Reachable.refines_queue (reachable : table.Reachable) :
    ∃ queue, table.IsQueue queue ∧
      (∀ frame, ∃ marked,
        table.markNotReferenced frame = .ok (decide (frame ∈ table), marked) ∧
        if frame ∈ table ∧ frame ∉ queue then
          marked.IsQueue (queue ++ [frame]) ∧
            marked.hand = if queue = [] then some frame else table.hand
        else marked = table) ∧
      (∀ frame ∈ table, ∃ released, table.release frame = .ok released ∧
        table.Dequeues queue frame released) ∧
      ∀ {σ : Type} (owners : FrameOwners σ) (state : σ) (request : FrameRequest)
        (owner : ProcessId) (page : PageNumber) (result : Except VmError FrameNumber)
        (after : FrameTable arch) (left : σ),
        (table.acquire owners state request owner page).Yields (result, after, left) →
          table.Acquires queue result after := by
  obtain ⟨ring, wellFormed⟩ := reachable.wellFormed
  refine ⟨ring, wellFormed.isRing.isQueue, fun frame => ?_, fun frame tracked => ?_, ?_⟩
  · by_cases first : frame ∈ table ∧ frame ∉ ring
    · obtain ⟨⟨known, marked⟩, done, rfl, wellFormed', hand⟩ :=
        (markNotReferenced_enqueues wellFormed first.1 first.2).exists_ok
      refine ⟨marked, by rw [done, decide_eq_true first.1], ?_⟩
      rw [if_pos first]
      exact ⟨wellFormed'.isRing.isQueue, hand⟩
    · refine ⟨table, markNotReferenced_eq wellFormed fun tracked => ?_, if_neg first ▸ rfl⟩
      exact Classical.not_not.mp fun held => first ⟨tracked, held⟩
  · obtain ⟨released, done, _, dequeues⟩ := (release_dequeues wellFormed tracked).exists_ok
    exact ⟨released, done, dequeues⟩
  · intro σ owners state request owner page result after left yields
    exact ((acquire_acquires wellFormed request owner page).of_yields yields).1

/-- A pool of which the first process owns all frames, each with the next page in it and in the ring
from then on. -/
def filled (total : Nat) : Run (FrameTable .scaleModel) := do
  let pool ← FramePool.new ⟨16⟩ total .hosted
  pool.free.foldlM (fun table frame => do
      let page := ⟨frame.value - pool.base.value + 1⟩
      let acquired ← table.acquire OwnerScript.owners {} {} ⟨1⟩ page
      let marked ← acquired.2.1.markNotReferenced frame
      return marked.2)
    { pool }

theorem filled_reachable {total : Nat} {table : FrameTable .scaleModel}
    (yields : (filled total).Yields table) : table.Reachable := by
  have reaches : (filled total).Satisfies (fun _ => True) Reachable := by
    refine .bind Run.Satisfies.any.yielding ?_
    rintro pool ⟨made, _⟩
    have new : FramePool.new ⟨16⟩ total .hosted = .ok pool := made
    refine .foldlM (fun _ => Reachable) (.new new pool.contents) fun frame _ table reachable => ?_
    refine .bind Run.Satisfies.any.yielding ?_
    rintro ⟨_, grown, _⟩ ⟨obtained, _⟩
    refine .bind Run.Satisfies.any.yielding ?_
    rintro ⟨_, marked⟩ ⟨done, _⟩
    exact .pure (.mark (.acquire reachable obtained) done)
  exact reaches.of_yields yields

/-- Of two frames in the queue the first one is given back with the hand on it. -/
theorem refines_queue_two : ∃ table released : FrameTable .scaleModel, table.Reachable ∧
    table.IsQueue [⟨16⟩, ⟨17⟩] ∧ table.hand = some ⟨16⟩ ∧ table.release ⟨16⟩ = .ok released ∧
      released.IsQueue [⟨17⟩] ∧ released.hand = some ⟨17⟩ := by
  have passes : (filled 2).passes (fun table => table.queued == 2 && table.head == some ⟨16⟩ &&
      table.hand == some ⟨16⟩ && table.walk ⟨16⟩ 1 == some ⟨17⟩ &&
      decide (⟨16⟩ ∈ table)) = true := by
    decide +kernel
  simp only [Run.passes_iff, Bool.and_eq_true, beq_iff_eq] at passes
  obtain ⟨table, made, ⟨⟨⟨queued, head⟩, hand⟩, onward⟩, tracked⟩ := passes
  have reachable := filled_reachable made
  obtain ⟨queue, isQueue, _, releases, _⟩ := reachable.refines_queue
  obtain ⟨a, b, rfl⟩ := List.length_eq_two.mp (isQueue.queued.symm.trans queued)
  have foremost := isQueue.head
  rw [head] at foremost
  cases foremost
  have second := isQueue.visits 1
  rw [queued, head, Option.bind_some, onward] at second
  cases second
  obtain ⟨released, done, dequeues⟩ := releases ⟨16⟩ (of_decide_eq_true tracked)
  refine ⟨table, released, reachable, isQueue, hand, done, dequeues.isQueue, ?_⟩
  exact dequeues.moves List.mem_cons_self hand

end FrameTable
end DemandPaging
