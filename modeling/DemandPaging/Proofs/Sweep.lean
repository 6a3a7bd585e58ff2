import Mathlib.Data.List.Rotate
import DemandPaging.Proofs.Search

/-!
The way of the hand. A search for a victim is a sequence of turns, one for each frame that the
hand comes to: the page in it is spared because it was accessed, or its owner is asked to move
it and refuses, or the frame is taken. The turns go round the ring from the hand on, and they
and the owners' answers determine how the search ends.
-/

namespace DemandPaging

variable {arch : Architecture} {σ α β : Type} {tolerated : Violation → Prop}

namespace Run

/-- What the run logged and the value it ended with satisfy `post`, or it ended with a tolerated
violation. -/
def Tells (tolerated : Violation → Prop) (post : List Event → α → Prop) (run : Run α) : Prop :=
  run.Satisfies tolerated (post run.events)

namespace Tells

theorem of_satisfies {post : α → Prop} {run : Run α} (h : run.Satisfies tolerated post) :
    run.Tells tolerated fun _ value => post value :=
  h

theorem pure {post : List Event → α → Prop} {value : α} (h : post [] value) :
    Tells tolerated post (Pure.pure value) :=
  h

theorem lift {post : α → Prop} {result : Checked α} (h : result.Satisfies tolerated post) :
    Tells tolerated (fun events value => events = [] ∧ post value) (liftM result : Run α) :=
  Checked.Satisfies.mono h fun _ holds => ⟨rfl, holds⟩

theorem log {event : Event} : Tells tolerated (fun events _ => events = [event]) (Run.log event) :=
  rfl

theorem mono {post goal : List Event → α → Prop} {run : Run α} (h : run.Tells tolerated post)
    (weaker : ∀ events value, post events value → goal events value) :
    run.Tells tolerated goal :=
  Satisfies.mono h (weaker run.events)

theorem bind {post : List Event → α → Prop} {goal : List Event → β → Prop} {first : Run α}
    {next : α → Run β} (h : first.Tells tolerated post)
    (rest : ∀ told value, post told value →
      (next value).Tells tolerated fun more result => goal (told ++ more) result) :
    Tells tolerated goal (first >>= next) := by
  change (Run.bind first next).Satisfies tolerated (goal (Run.bind first next).events)
  unfold Run.Tells Run.Satisfies at *
  unfold Run.bind
  cases ended : first.outcome with
  | error violation =>
      rw [ended] at h
      exact h
  | ok value =>
      rw [ended] at h
      exact rest first.events value h

theorem weaken {post : List Event → α → Prop} {run : Run α} {also : Violation → Prop}
    (h : run.Tells tolerated post) (weaker : ∀ violation, tolerated violation → also violation) :
    run.Tells also post :=
  Satisfies.weaken h weaker

theorem and {post : α → Prop} {also : List Event → α → Prop} {run : Run α}
    (h : run.Satisfies tolerated post) (more : run.Tells (fun _ => True) also) :
    run.Tells tolerated fun events value => post value ∧ also events value :=
  Satisfies.and h more

end Tells

end Run

/-- What came of a frame that the hand was on: the answer of its page's owner if it was asked to
move the page, none if the page was spared because it had been accessed. -/
structure Turn where
  frame : FrameNumber
  answer : Option (Except VmError Unit)

def Turn.event (turn : Turn) (owner : ProcessId × PageNumber) : Event :=
  match turn.answer with
  | none => .secondChance owner.2 owner.1
  | some (.error cause) => .evictionRefused owner.2 owner.1 cause
  | some (.ok ()) => .evicted turn.frame owner.2 owner.1

/-- A search goes through these turns, asking at most so many times for a page: it starts with
the frames in the first order, and the second order is the one it leaves them in. The frame
that the hand is on is the first of the order, and a frame that is passed becomes the last. -/
inductive Sweep (owners : FrameOwners σ) (ownerOf : FrameNumber → Option (ProcessId × PageNumber))
    (contents : FrameNumber → Page) :
    List FrameNumber → Nat → σ → List Turn → Except VmError FrameNumber → List FrameNumber → σ →
      Prop
  | spare {frame : FrameNumber} {rest final : List FrameNumber} {attempts : Nat}
      {owner : ProcessId × PageNumber} {state cleared left : σ} {turns : List Turn}
      {result : Except VmError FrameNumber} (owned : ownerOf frame = some owner)
      (tested : owners.testAndClearAccessed state owner.1 owner.2 = (true, cleared))
      (onward : Sweep owners ownerOf contents (rest ++ [frame]) attempts cleared turns result final
        left) :
      Sweep owners ownerOf contents (frame :: rest) attempts state (⟨frame, none⟩ :: turns) result
        final left
  | refuse {frame : FrameNumber} {rest final : List FrameNumber} {attempts : Nat}
      {owner : ProcessId × PageNumber} {state searched refused left : σ} {turns : List Turn}
      {cause : VmError} {result : Except VmError FrameNumber} (owned : ownerOf frame = some owner)
      (tested : owners.testAndClearAccessed state owner.1 owner.2 = (false, searched))
      (refuses : (owners.evict searched owner.1 owner.2 (contents frame)).Yields
        (.error cause, refused))
      (onward : Sweep owners ownerOf contents (rest ++ [frame]) (attempts + 1) refused turns result
        final left) :
      Sweep owners ownerOf contents (frame :: rest) (attempts + 2) state
        (⟨frame, some (.error cause)⟩ :: turns) result final left
  | giveUp {frame : FrameNumber} {rest : List FrameNumber} {owner : ProcessId × PageNumber}
      {state searched refused : σ} {cause : VmError} (owned : ownerOf frame = some owner)
      (tested : owners.testAndClearAccessed state owner.1 owner.2 = (false, searched))
      (refuses : (owners.evict searched owner.1 owner.2 (contents frame)).Yields
        (.error cause, refused)) :
      Sweep owners ownerOf contents (frame :: rest) 1 state [⟨frame, some (.error cause)⟩]
        (.error cause) (rest ++ [frame]) refused
  | take {frame : FrameNumber} {rest : List FrameNumber} {attempts : Nat}
      {owner : ProcessId × PageNumber} {state searched left : σ} (owned : ownerOf frame = some owner)
      (tested : owners.testAndClearAccessed state owner.1 owner.2 = (false, searched))
      (moves : (owners.evict searched owner.1 owner.2 (contents frame)).Yields (.ok (), left)) :
      Sweep owners ownerOf contents (frame :: rest) attempts state [⟨frame, some (.ok ())⟩]
        (.ok frame) rest left

namespace FrameTable

variable {table left : FrameTable arch} {ring order rest : List FrameNumber} {frame : FrameNumber}
  {owners : FrameOwners σ} {state : σ}

/-- The frames of the queue in the order in which the hand comes to them. -/
structure FromHand (table : FrameTable arch) (order : List FrameNumber) : Prop where
  rotated : ∃ queue, table.IsQueue queue ∧ order.IsRotated queue
  hand : table.hand = order.head?

theorem FromHand.of_isRing (isRing : table.IsRing ring) (rotated : order.IsRotated ring)
    (hand : table.hand = order.head?) : table.FromHand order :=
  ⟨⟨ring, isRing.isQueue, rotated⟩, hand⟩

theorem FromHand.isRotated (fromHand : table.FromHand order) (isRing : table.IsRing ring) :
    order.IsRotated ring := by
  obtain ⟨⟨queue, isQueue, rotated⟩, _⟩ := fromHand
  rwa [← isQueue.unique isRing.isQueue]

theorem IsRing.exists_order (isRing : table.IsRing ring) : ∃ order, table.FromHand order := by
  cases pointed : table.hand with
  | none =>
      obtain rfl := isRing.stopped pointed
      exact ⟨[], .of_isRing isRing (.refl _) pointed⟩
  | some hand =>
      obtain ⟨before, after, rfl⟩ := List.append_of_mem (isRing.hand hand pointed)
      exact ⟨hand :: after ++ before, .of_isRing isRing List.isRotated_append pointed⟩

/-- Following the links from the hand on leads through the order again and again. -/
theorem FromHand.walk_eq (fromHand : table.FromHand order) (isRing : table.IsRing ring)
    (steps : Nat) :
    (table.hand.bind fun hand => table.walk hand steps) = order[steps % order.length]? := by
  obtain ⟨n, rfl⟩ := (fromHand.isRotated isRing).symm
  rw [fromHand.hand, List.length_rotate]
  cases ring with
  | nil => rfl
  | cons first rest =>
      have small (i : Nat) : i % (first :: rest).length < (first :: rest).length :=
        Nat.mod_lt _ (Nat.succ_pos _)
      rw [List.head?_eq_getElem?, List.getElem?_rotate (Nat.succ_pos _),
        List.getElem?_rotate (small steps), List.getElem?_eq_getElem (small _), Option.bind_some,
        isRing.walk_eq, Nat.zero_add, Nat.mod_add_mod, Nat.mod_add_mod, Nat.add_comm]

/-- Following the links from the hand on once around. -/
def inOrder (table : FrameTable arch) : List FrameNumber :=
  (List.range table.queued).filterMap fun steps =>
    table.hand.bind fun hand => table.walk hand steps

theorem filterMap_range_getElem? {α : Type} (list : List α) :
    ((List.range list.length).filterMap fun i => list[i]?) = list := by
  induction list with
  | nil => rfl
  | cons a rest ih => simpa [List.range_succ_eq_map, List.filterMap_map] using ih

theorem FromHand.inOrder_eq (fromHand : table.FromHand order) (isRing : table.IsRing ring) :
    table.inOrder = order := by
  have queued : table.queued = order.length := by
    rw [isRing.counted, (fromHand.isRotated isRing).perm.length_eq]
  unfold inOrder
  rw [queued]
  conv_rhs => rw [← filterMap_range_getElem? order]
  refine List.filterMap_congr fun steps member => ?_
  rw [fromHand.walk_eq isRing, Nat.mod_eq_of_lt (List.mem_range.mp member)]

theorem Reachable.fromHand (reachable : table.Reachable) : table.FromHand table.inOrder := by
  obtain ⟨ring, wellFormed⟩ := reachable.wellFormed
  obtain ⟨order, fromHand⟩ := wellFormed.isRing.exists_order
  rwa [fromHand.inOrder_eq wellFormed.isRing]

theorem circular_of_isRotated {follows : FrameNumber → FrameNumber → Prop}
    (circular : Circular follows ring) (rotated : order.IsRotated ring) :
    Circular follows order := by
  obtain ⟨n, small, rfl⟩ := List.isRotated_iff_mod.mp rotated.symm
  rw [List.rotate_eq_drop_append_take small]
  refine Circular.rotate.mp ?_
  rwa [List.take_append_drop]

theorem IsRing.onward (isRing : table.IsRing ring) (rotated : (frame :: rest).IsRotated ring)
    {record : FrameRecord} (found : table.find? frame = some record) :
    ∃ more, rest ++ [frame] = table.pool.frameAt record.next :: more := by
  have circular := circular_of_isRotated isRing.circular rotated
  cases rest with
  | nil =>
      obtain ⟨looped, _⟩ := ((Circular.iff_of_ne_nil (by simp)).mp circular).2
      have next := (field?_of_find? found _).symm.trans looped
      exact ⟨[], by rw [Option.some.inj next]; rfl⟩
  | cons second rest =>
      obtain ⟨⟨linked, _⟩, _⟩ := (Circular.cons_iff (by simp)).mp circular
      have next := (field?_of_find? found _).symm.trans linked
      exact ⟨rest ++ [frame], by rw [Option.some.inj next]; rfl⟩

theorem scan_sweeps (isRing : table.IsRing ring) {index : FrameIndex}
    (rotated : (table.pool.frameAt index :: rest).IsRotated ring) :
    (table.scan owners index state).Satisfies (fun _ => True) fun (victim, searched) =>
      ∃ others owner tested, (table.pool.frameAt victim :: others).IsRotated ring ∧
        table.ownerOf (table.pool.frameAt victim) = some owner ∧
        owners.testAndClearAccessed tested owner.1 owner.2 = (false, searched) ∧
        ∀ attempts turns result final after,
          Sweep owners table.ownerOf table.pool.page (table.pool.frameAt victim :: others) attempts
              tested turns result final after →
            ∃ passed, Sweep owners table.ownerOf table.pool.page (table.pool.frameAt index :: rest)
              attempts state (passed ++ turns) result final after := by
  -- what follows from the place that the search has come to extends the turns so far
  refine .iterate (fun (place, now) => ∃ others,
    (table.pool.frameAt place :: others).IsRotated ring ∧ ∀ attempts turns result final after,
      Sweep owners table.ownerOf table.pool.page (table.pool.frameAt place :: others) attempts now
          turns result final after →
        ∃ passed, Sweep owners table.ownerOf table.pool.page (table.pool.frameAt index :: rest)
          attempts state (passed ++ turns) result final after) ?_ _
    ⟨rest, rotated, fun _ _ _ _ _ sweep => ⟨[], sweep⟩⟩
  rintro ⟨place, now⟩ ⟨others, rotated', extends'⟩
  have member := rotated'.mem_iff.mp List.mem_cons_self
  obtain ⟨record, found⟩ := mem_iff.mp (isRing.mem member)
  have owned := ownerOf_of_find? found
  dsimp only
  rw [test_eq rfl found]
  cases tested : owners.testAndClearAccessed now record.owner record.page with
  | mk again cleared =>
      cases again with
      | false => exact .pure ⟨others, _, now, rotated', owned, tested, extends'⟩
      | true =>
          obtain ⟨more, onward⟩ := isRing.onward rotated' found
          refine .bind .log fun _ _ => .pure ⟨more, ?_, ?_⟩
          · exact onward ▸ List.isRotated_append.trans rotated'
          · intro attempts turns result final after sweep
            obtain ⟨passed, sweep⟩ := extends' attempts _ result final after
              (.spare owned tested (onward ▸ sweep))
            exact ⟨passed ++ [⟨table.pool.frameAt place, none⟩], by rwa [List.append_cons] at sweep⟩

theorem StepsPast.hand_eq (stepsPast : table.StepsPast ring frame left)
    (here : table.hand = some frame) (nodup : ring.Nodup)
    (rotated : (frame :: rest).IsRotated ring) : left.hand = rest.head? := by
  have member := rotated.mem_iff.mp List.mem_cons_self
  rw [stepsPast.moves member here]
  cases rest with
  | nil => rw [if_pos (List.isRotated_singleton_iff'.mp rotated).symm, List.head?_nil]
  | cons second rest =>
      have next := List.isRotated_next_eq rotated (rotated.nodup_iff.mpr nodup) List.mem_cons_self
      rw [List.next_cons_cons_eq] at next
      rw [if_neg, ← next, List.head?_cons]
      rintro rfl
      exact absurd rotated.perm.length_eq (by simp)

theorem bytes_eq_page : (table.bytes frame).Satisfies (fun _ => True) fun contents =>
    contents = table.pool.page frame :=
  .bind .any fun _ _ => .pure rfl

/-- A search goes round the ring turn by turn, and what it says last is about its last turn. -/
theorem evictWithin_sweeps (wellFormed : table.WellFormed (fun _ => True) ring)
    (rotated : (frame :: rest).IsRotated ring) (hand : table.hand = some frame) (attempts : Nat) :
    (table.evictWithin owners attempts state).Tells (fun _ => True)
      fun events (result, left, after) => ∃ turns final turn owner,
        Sweep owners table.ownerOf table.pool.page (frame :: rest) attempts state turns result final
          after ∧
        left.hand = final.head? ∧ turns.getLast? = some turn ∧
        table.ownerOf turn.frame = some owner ∧ events.getLast? = some (turn.event owner) := by
  induction attempts using Nat.strong_induction_on generalizing table frame rest state with
  | _ attempts ih =>
      obtain ⟨index, pointed, rfl⟩ := Option.map_eq_some_iff.mp hand
      unfold evictWithin
      rw [pointed]
      refine .bind (.of_satisfies (scan_sweeps wellFormed.isRing rotated)) ?_
      rintro _ ⟨victim, searched⟩ ⟨others, owner, tested, rotated', owned, clear, extends'⟩
      have member := rotated'.mem_iff.mp List.mem_cons_self
      obtain ⟨record, found⟩ := mem_iff.mp (wellFormed.isRing.mem member)
      cases owned.symm.trans (ownerOf_of_find? found)
      refine .bind (.of_satisfies (.lift (.of_eq (record_eq rfl found) rfl))) ?_
      rintro _ _ rfl
      refine .bind (.of_satisfies (.lift bytes_eq_page)) ?_
      rintro _ _ rfl
      refine .bind (.of_satisfies (.yielding .any)) ?_
      rintro _ ⟨result, asked⟩ ⟨answers, _⟩
      cases result with
      | ok _ =>
          have aimed := wellFormed.pointIndex member
          refine .bind (.of_satisfies (.lift (drop_stepsPast aimed.isRing rfl member))) ?_
          rintro _ dropped stepsPast
          refine .bind .log ?_
          rintro _ _ rfl
          obtain ⟨spared, sweep⟩ := extends' attempts _ _ _ _ (.take owned clear answers)
          exact .pure ⟨_, _, _, _, sweep, stepsPast.hand_eq rfl wellFormed.isRing.nodup rotated',
            List.getLast?_concat .., owned, by simp [Turn.event]⟩
      | error cause =>
          refine .bind .log ?_
          rintro _ _ rfl
          obtain ⟨more, onward⟩ := wellFormed.isRing.onward rotated' found
          have next := wellFormed.isRing.next_mem found member
          obtain _ | _ | fewer := attempts
          · trivial
          · obtain ⟨spared, sweep⟩ := extends' 1 _ _ _ _ (.giveUp owned clear answers)
            refine .pure ⟨_, _, _, _, sweep, ?_, List.getLast?_concat .., owned,
              by simp [Turn.event]⟩
            rw [onward]
            rfl
          · have passed : (table.pool.frameAt record.next :: more).IsRotated ring :=
              onward ▸ List.isRotated_append.trans rotated'
            refine .mono (ih (fewer + 1) (Nat.lt_succ_self _) (wellFormed.pointIndex next) passed
              rfl) ?_
            rintro events ⟨result, left, after⟩ ⟨turns, final, turn, owner, sweep, pointed, last,
              owned', told⟩
            obtain ⟨spared, sweep⟩ := extends' (fewer + 2) _ _ _ _
              (.refuse owned clear answers (onward ▸ sweep))
            refine ⟨_, final, turn, owner, sweep, pointed, ?_, owned', ?_⟩
            · rw [List.getLast?_append, List.getLast?_cons, last]
              rfl
            · simp only [List.getLast?_append, told, Option.some_or]

end FrameTable
end DemandPaging
