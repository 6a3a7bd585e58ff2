import Mathlib.Data.List.Chain
import Mathlib.Data.List.Nodup
import DemandPaging.Proofs.Arena

/-!
The ring of frames that may be taken away. A list says in which order following `next`
from the head visits the ring; putting a frame in extends the list at its end, and
taking one out deletes it from the list, wherever head and hand are.
-/

namespace DemandPaging

section Circular

variable {α : Type} {follows : α → α → Prop}

/-- Every element is followed by the one after it, and the last by the first. -/
def Circular (follows : α → α → Prop) (circle : List α) : Prop :=
  (circle ++ circle.head?.toList).IsChain follows

namespace Circular

theorem nil : Circular follows [] := by
  simp [Circular]

theorem iff_of_ne_nil {circle : List α} (nonempty : circle ≠ []) :
    Circular follows circle ↔
      circle.IsChain follows ∧ follows (circle.getLast nonempty) (circle.head nonempty) := by
  unfold Circular
  rw [List.head?_eq_some_head nonempty, Option.toList_some, List.isChain_append,
    List.getLast?_eq_some_getLast nonempty]
  simp

theorem of_mem {follows' : α → α → Prop} {circle : List α} (circular : Circular follows circle)
    (step : ∀ a b, a ∈ circle → b ∈ circle → follows a b → follows' a b) :
    Circular follows' circle := by
  have members : ∀ a, a ∈ circle ++ circle.head?.toList → a ∈ circle := by
    intro a inside
    refine (List.mem_append.mp inside).elim id ?_
    intro first
    exact List.mem_of_mem_head? (Option.mem_toList.mp first)
  refine List.IsChain.imp_of_mem_imp ?_ circular
  intro a b ha hb
  exact step a b (members a ha) (members b hb)

/-- A circle has no beginning. -/
theorem rotate {first second : List α} :
    Circular follows (first ++ second) ↔ Circular follows (second ++ first) := by
  cases first with
  | nil => simp
  | cons a first =>
      cases second with
      | nil => simp
      | cons b second =>
          have split : ∀ (x y : α) (l r : List α), Circular follows ((x :: l) ++ y :: r) ↔
              ((x :: l) ++ [y]).IsChain follows ∧ ((y :: r) ++ [x]).IsChain follows := by
            intro x y l r
            change ((x :: l) ++ y :: r ++ [x]).IsChain follows ↔ _
            rw [List.append_assoc]
            exact List.isChain_split
          rw [split, split, and_comm]

theorem cons_iff {x : α} {rest : List α} (nonempty : rest ≠ []) :
    Circular follows (x :: rest) ↔ follows x (rest.head nonempty) ∧
      rest.IsChain follows ∧ follows (rest.getLast nonempty) x := by
  rw [iff_of_ne_nil (List.cons_ne_nil x rest), List.isChain_cons,
    List.head?_eq_some_head nonempty, List.getLast_cons nonempty]
  simp [and_assoc]

end Circular

/-- The links between the elements of a list without repetition do not involve what
precedes its first element or follows its last. -/
theorem isChain_of_interior {follows' : α → α → Prop} {l : List α} (nodup : l.Nodup)
    (chain : l.IsChain follows)
    (step : ∀ a b, a ∈ l → b ∈ l → l.getLast? ≠ some a → l.head? ≠ some b →
      follows a b → follows' a b) : l.IsChain follows' := by
  rw [List.isChain_iff_getElem] at chain ⊢
  intro i hi
  refine step _ _ (List.getElem_mem _) (List.getElem_mem _) ?_ ?_ (chain i hi)
  · intro last
    rw [List.getLast?_eq_getElem?, List.getElem?_eq_getElem (by omega)] at last
    have := (List.Nodup.getElem_inj_iff nodup).mp (Option.some.inj last)
    omega
  · intro first
    rw [List.head?_eq_getElem?, List.getElem?_eq_getElem (by omega)] at first
    have := (List.Nodup.getElem_inj_iff nodup).mp (Option.some.inj first)
    omega

/-- Two elements point at each other through partial functions `next` and `prev`. -/
def Linked (next prev : α → Option α) (a b : α) : Prop :=
  next a = some b ∧ prev b = some a

variable {next prev next' prev' : α → Option α} {ring : List α} {x : α}

theorem Circular.push_back (nonempty : ring ≠ []) (nodup : ring.Nodup) (fresh : x ∉ ring)
    (circular : Circular (Linked next prev) ring)
    (next_last : next' (ring.getLast nonempty) = some x)
    (next_new : next' x = some (ring.head nonempty))
    (next_other : ∀ a, a ≠ x → a ≠ ring.getLast nonempty → next' a = next a)
    (prev_head : prev' (ring.head nonempty) = some x)
    (prev_new : prev' x = some (ring.getLast nonempty))
    (prev_other : ∀ a, a ≠ x → a ≠ ring.head nonempty → prev' a = prev a) :
    Circular (Linked next' prev') (ring ++ [x]) := by
  obtain ⟨chain, _⟩ := (Circular.iff_of_ne_nil nonempty).mp circular
  refine (Circular.iff_of_ne_nil (by simp)).mpr ⟨?_, ?_⟩
  · rw [List.isChain_append]
    refine ⟨isChain_of_interior nodup chain ?_, List.isChain_singleton x, ?_⟩
    · intro a b ha hb notLast notHead linked
      rw [List.getLast?_eq_some_getLast nonempty] at notLast
      rw [List.head?_eq_some_head nonempty] at notHead
      refine ⟨?_, ?_⟩
      · rw [next_other a (fun h => fresh (h ▸ ha)) (fun h => notLast (h ▸ rfl))]
        exact linked.1
      · rw [prev_other b (fun h => fresh (h ▸ hb)) (fun h => notHead (h ▸ rfl))]
        exact linked.2
    · rw [List.getLast?_eq_some_getLast nonempty]
      simpa using ⟨next_last, prev_new⟩
  · rw [List.getLast_append_singleton, List.head_append_of_ne_nil nonempty]
    exact ⟨next_new, prev_head⟩

theorem Circular.remove {rest : List α} (nonempty : rest ≠ []) (nodup : rest.Nodup)
    (circular : Circular (Linked next prev) (x :: rest))
    (next_last : next' (rest.getLast nonempty) = some (rest.head nonempty))
    (next_other : ∀ a, a ∈ rest → a ≠ rest.getLast nonempty → next' a = next a)
    (prev_head : prev' (rest.head nonempty) = some (rest.getLast nonempty))
    (prev_other : ∀ a, a ∈ rest → a ≠ rest.head nonempty → prev' a = prev a) :
    Circular (Linked next' prev') rest := by
  obtain ⟨_, chain, _⟩ := (Circular.cons_iff nonempty).mp circular
  refine (Circular.iff_of_ne_nil nonempty).mpr ⟨?_, next_last, prev_head⟩
  refine isChain_of_interior nodup chain ?_
  intro a b ha hb notLast notHead linked
  rw [List.getLast?_eq_some_getLast nonempty] at notLast
  rw [List.head?_eq_some_head nonempty] at notHead
  refine ⟨?_, ?_⟩
  · rw [next_other a ha (fun h => notLast (h ▸ rfl))]
    exact linked.1
  · rw [prev_other b hb (fun h => notHead (h ▸ rfl))]
    exact linked.2

end Circular

namespace FrameTable

variable {arch : Architecture} {table : FrameTable arch} {ring : List FrameNumber}
  {frame : FrameNumber} {index : FrameIndex} {tolerated : Violation → Prop}

/-- The ring visits these frames in this order, from its head on. -/
structure IsRing (table : FrameTable arch) (ring : List FrameNumber) : Prop where
  nodup : ring.Nodup
  queued : ∀ frame, frame ∈ ring ↔ table.field? FrameRecord.referenced frame = some false
  circular : Circular (Linked table.next? table.prev?) ring
  head : table.head = ring.head?
  hand : ∀ frame, table.hand = some frame → frame ∈ ring
  stopped : table.hand = none → ring = []
  counted : table.queued = ring.length

/-- A change of the ring alone: contents, owners and the other counts stay. -/
structure Rewires (table rewired : FrameTable arch) : Prop where
  pool : rewired.pool = table.pool
  size : rewired.records.size = table.records.size
  resident : rewired.resident = table.resident
  evictions : rewired.evictions = table.evictions
  owners : ∀ frame, rewired.ownerOf frame = table.ownerOf frame

namespace IsRing

theorem mem (isRing : table.IsRing ring) (member : frame ∈ ring) : frame ∈ table :=
  mem_of_field? ((isRing.queued frame).mp member)

theorem not_mem_of_referenced (isRing : table.IsRing ring)
    (outside : table.field? FrameRecord.referenced frame = some true) : frame ∉ ring := by
  intro member
  have queued := (isRing.queued frame).mp member
  exact absurd (outside.symm.trans queued) (by decide)

theorem congr {same : FrameTable arch} (isRing : table.IsRing ring)
    (find : same.find? = table.find?) (base : same.pool.base = table.pool.base)
    (head : same.headIndex = table.headIndex) (hand : same.handIndex = table.handIndex)
    (queued : same.queued = table.queued) : same.IsRing ring := by
  have frameAt : same.pool.frameAt = table.pool.frameAt := by
    funext index
    unfold FramePool.frameAt
    rw [base]
  obtain ⟨nodup, members, circular, first, pointed, stopped, counted⟩ := isRing
  refine ⟨nodup, ?_, ?_, ?_, ?_, ?_, queued.trans counted⟩
  · unfold field? at *
    rwa [find]
  · unfold next? prev? field? at *
    rwa [find, frameAt]
  · unfold FrameTable.head at *
    rwa [head, frameAt]
  · unfold FrameTable.hand at *
    rwa [hand, frameAt]
  · unfold FrameTable.hand at *
    rwa [hand, frameAt]

end IsRing

theorem link_first_satisfies (isRing : table.IsRing [])
    (place : table.pool.frameAt index = frame)
    (outside : table.field? FrameRecord.referenced frame = some true) :
    (table.link index).Satisfies tolerated fun linked =>
      linked.IsRing [frame] ∧ table.Rewires linked := by
  have tracked : frame ∈ table := mem_of_field? outside
  have empty : table.headIndex = none := Option.map_eq_none_iff.mp isRing.head
  unfold link
  rw [empty]
  refine .bind (modifyRecord_satisfies place tracked) fun alone halone => ?_
  refine .bind (.pure rfl) ?_
  rintro started rfl
  have startedIn : frame ∈ alone := halone.mem tracked
  refine .bind (modifyRecord_satisfies (halone.pool ▸ place) startedIn) fun marked hmarked => ?_
  have rest : marked = { table with
      records := marked.records, headIndex := some index, handIndex := some index } :=
    hmarked.rest.trans (by rw [halone.rest])
  have pool : marked.pool = table.pool := by rw [rest]
  have members : ∀ other, other ∈ [frame] ↔
      marked.field? FrameRecord.referenced other = some false := by
    intro other
    by_cases same : other = frame
    · subst same
      simpa using hmarked.set startedIn fun _ => rfl
    · rw [hmarked.elsewhere same]
      change _ ↔ alone.field? _ other = _
      rw [halone.kept (fun _ => rfl) other, ← isRing.queued]
      simpa using same
  have circular : Circular (Linked marked.next? marked.prev?) [frame] := by
    unfold next? prev?
    rw [pool]
    refine (Circular.iff_of_ne_nil (by simp)).mpr ⟨List.isChain_singleton _, ?_, ?_⟩
    · exact (hmarked.kept (fun _ => rfl) frame).trans (halone.set tracked fun _ => place)
    · exact (hmarked.kept (fun _ => rfl) frame).trans (halone.set tracked fun _ => place)
  have head : marked.head = some frame := by
    rw [rest]
    exact congrArg some place
  have hand : marked.hand = some frame := by
    rw [rest]
    exact congrArg some place
  refine .pure ⟨⟨List.nodup_singleton frame, members, circular, head, ?_, ?_, ?_⟩,
    ⟨pool, hmarked.size.trans halone.size, ?_, ?_, ?_⟩⟩
  · intro other pointed
    exact Option.some.inj (hand.symm.trans pointed) ▸ List.mem_singleton_self frame
  · intro stopped
    cases hand.symm.trans stopped
  · rw [rest]
    exact congrArg (· + 1) isRing.counted
  · rw [rest]
  · rw [rest]
  · intro other
    exact (hmarked.kept (fun _ => rfl) other).trans (halone.kept (fun _ => rfl) other)

/-- Four writes link a frame in between the last one of the ring and the first. -/
theorem IsRing.linked_circular {joining after before linked : FrameTable arch}
    {head tail : FrameIndex} (isRing : table.IsRing ring) (nonempty : ring ≠ [])
    (fresh : frame ∉ ring) (tracked : frame ∈ table) (place : table.pool.frameAt index = frame)
    (headPlace : table.pool.frameAt head = ring.head nonempty)
    (tailPlace : table.pool.frameAt tail = ring.getLast nonempty)
    (hjoining : table.Changes frame (fun record => { record with next := head, prev := tail })
      joining)
    (hafter : joining.Changes (ring.getLast nonempty) (fun record => { record with next := index })
      after)
    (hbefore : after.Changes (ring.head nonempty) (fun record => { record with prev := index })
      before)
    (hlinked : before.Changes frame (fun record => { record with referenced := false }) linked) :
    Circular (Linked linked.next? linked.prev?) (ring ++ [frame]) := by
  have headApart := ne_of_mem_of_not_mem (List.head_mem nonempty) fresh
  have tailApart := ne_of_mem_of_not_mem (List.getLast_mem nonempty) fresh
  have headIn := hafter.mem (hjoining.mem (isRing.mem (List.head_mem nonempty)))
  have tailIn := hjoining.mem (isRing.mem (List.getLast_mem nonempty))
  have pool : linked.pool = table.pool := by
    rw [hlinked.pool, hbefore.pool, hafter.pool, hjoining.pool]
  unfold next? prev?
  rw [pool]
  -- each link of the result is read off the last of the writes that sets it
  refine Circular.push_back nonempty isRing.nodup fresh isRing.circular ?_ ?_ ?_ ?_ ?_ ?_
  · rw [hlinked.kept fun _ => rfl, hbefore.kept fun _ => rfl]
    exact hafter.set tailIn fun _ => place
  · rw [hlinked.kept fun _ => rfl, hbefore.kept fun _ => rfl, hafter.elsewhere tailApart.symm]
    exact hjoining.set tracked fun _ => headPlace
  · intro a notNew notLast
    rw [hlinked.kept fun _ => rfl, hbefore.kept fun _ => rfl, hafter.elsewhere notLast,
      hjoining.elsewhere notNew]
    rfl
  · rw [hlinked.kept fun _ => rfl]
    exact hbefore.set headIn fun _ => place
  · rw [hlinked.kept fun _ => rfl, hbefore.elsewhere headApart.symm, hafter.kept fun _ => rfl]
    exact hjoining.set tracked fun _ => tailPlace
  · intro a notNew notHead
    rw [hlinked.kept fun _ => rfl, hbefore.elsewhere notHead, hafter.kept fun _ => rfl,
      hjoining.elsewhere notNew]
    rfl

theorem link_last_satisfies (isRing : table.IsRing ring) (nonempty : ring ≠ [])
    (place : table.pool.frameAt index = frame)
    (outside : table.field? FrameRecord.referenced frame = some true) :
    (table.link index).Satisfies tolerated fun linked =>
      linked.IsRing (ring ++ [frame]) ∧ table.Rewires linked := by
  have fresh : frame ∉ ring := isRing.not_mem_of_referenced outside
  have tracked : frame ∈ table := mem_of_field? outside
  obtain ⟨chain, hnext, hprev⟩ := (Circular.iff_of_ne_nil nonempty).mp isRing.circular
  obtain ⟨head, first, headPlace⟩ :=
    Option.map_eq_some_iff.mp (isRing.head.trans (List.head?_eq_some_head nonempty))
  obtain ⟨record, hfirst, tailPlace⟩ := Option.map_eq_some_iff.mp hprev
  have headIn : ring.head nonempty ∈ table := mem_of_field? hprev
  have tailIn : ring.getLast nonempty ∈ table := mem_of_field? hnext
  unfold link
  rw [first]
  simp only
  rw [record_eq headPlace hfirst, Checked.ok_bind]
  refine .bind (modifyRecord_satisfies place tracked) fun joining hjoining => ?_
  refine .bind (modifyRecord_satisfies (hjoining.pool ▸ tailPlace) (hjoining.mem tailIn))
    fun after hafter => ?_
  have pool : after.pool = table.pool := hafter.pool.trans hjoining.pool
  refine .bind (modifyRecord_satisfies (pool ▸ headPlace) (hafter.mem (hjoining.mem headIn)))
    fun before hbefore => ?_
  have beforeIn : frame ∈ before := hbefore.mem (hafter.mem (hjoining.mem tracked))
  have pool : before.pool = table.pool := hbefore.pool.trans pool
  refine .bind (modifyRecord_satisfies (pool ▸ place) beforeIn) fun linked hlinked => ?_
  have rest : linked = { table with records := linked.records } :=
    hlinked.rest_trans (hbefore.rest_trans (hafter.rest_trans hjoining.rest))
  have members : ∀ other, other ∈ ring ++ [frame] ↔
      linked.field? FrameRecord.referenced other = some false := by
    intro other
    by_cases same : other = frame
    · subst same
      simpa using hlinked.set beforeIn fun _ => rfl
    · rw [hlinked.elsewhere same, hbefore.kept fun _ => rfl, hafter.kept fun _ => rfl,
        hjoining.kept fun _ => rfl, ← isRing.queued]
      simp [same]
  have circular := isRing.linked_circular nonempty fresh tracked place headPlace tailPlace hjoining
    hafter hbefore hlinked
  have joined : (ring ++ [frame]).Nodup := List.concat_eq_append ▸ isRing.nodup.concat fresh
  have cursors : linked.head = table.head ∧ linked.hand = table.hand := by
    rw [rest]
    exact ⟨rfl, rfl⟩
  refine .pure ⟨⟨joined, members, circular, ?_, ?_, ?_, ?_⟩, ⟨?_, ?_, ?_, ?_, ?_⟩⟩
  · refine cursors.1.trans (isRing.head.trans ?_)
    rw [List.head?_append, List.head?_eq_some_head nonempty]
    rfl
  · intro other pointed
    exact List.mem_append_left _ (isRing.hand other (cursors.2.symm.trans pointed))
  · intro stopped
    exact absurd (isRing.stopped (cursors.2.symm.trans stopped)) nonempty
  · rw [rest, List.length_append]
    exact congrArg (· + 1) isRing.counted
  · rw [rest]
  · rw [hlinked.size, hbefore.size, hafter.size, hjoining.size]
  · rw [rest]
  · rw [rest]
  · intro other
    change linked.field? _ other = table.field? _ other
    rw [hlinked.kept fun _ => rfl, hbefore.kept fun _ => rfl, hafter.kept fun _ => rfl,
      hjoining.kept fun _ => rfl]

/-- A frame that is put in joins the ring at its end. -/
theorem link_satisfies (isRing : table.IsRing ring) (place : table.pool.frameAt index = frame)
    (outside : table.field? FrameRecord.referenced frame = some true) :
    (table.link index).Satisfies tolerated fun linked =>
      linked.IsRing (ring ++ [frame]) ∧ table.Rewires linked := by
  cases ring with
  | nil => exact link_first_satisfies isRing place outside
  | cons head rest =>
      exact link_last_satisfies isRing (List.cons_ne_nil head rest) place outside

theorem isRing_forget (tracked : frame ∈ table) (outside : frame ∉ ring) (nodup : ring.Nodup)
    (queued : ∀ other, other ≠ frame →
      (other ∈ ring ↔ table.field? FrameRecord.referenced other = some false))
    (circular : Circular (Linked table.next? table.prev?) ring) (head : table.head = ring.head?)
    (hand : ∀ other, table.hand = some other → other ∈ ring)
    (stopped : table.hand = none → ring = []) (counted : table.queued = ring.length) :
    (table.forget frame).IsRing ring := by
  have rest := (table.forget_rest frame).1
  have pool := table.forget_pool frame
  have kept : ∀ {β : Type} (field : FrameRecord → β) (other : FrameNumber), other ∈ ring →
      (table.forget frame).field? field other = table.field? field other := by
    intro β field other member
    rw [forget_field? tracked, if_neg (ne_of_mem_of_not_mem member outside)]
  refine ⟨nodup, fun other => ?_, ?_, ?_, ?_, ?_, ?_⟩
  · rw [forget_field? tracked]
    by_cases same : other = frame
    · subst same
      simpa using outside
    · rw [if_neg same]
      exact queued other same
  · refine circular.of_mem fun a b ha hb linked => ?_
    unfold Linked next? prev? at *
    rw [pool]
    exact ⟨(kept _ a ha).trans linked.1, (kept _ b hb).trans linked.2⟩
  · rw [rest]
    exact head
  · rw [rest]
    exact hand
  · rw [rest]
    exact stopped
  · rw [rest]
    exact counted

theorem IsRing.forget (isRing : table.IsRing ring) (tracked : frame ∈ table)
    (outside : frame ∉ ring) : (table.forget frame).IsRing ring :=
  isRing_forget tracked outside isRing.nodup (fun other _ => isRing.queued other) isRing.circular
    isRing.head isRing.hand isRing.stopped isRing.counted

theorem unlink_only_satisfies (isRing : table.IsRing [frame]) (index : FrameIndex) :
    (table.unlink index).Satisfies tolerated fun unlinked =>
      (unlinked.forget frame).IsRing [] ∧ table.Rewires unlinked := by
  have tracked : frame ∈ table := isRing.mem List.mem_cons_self
  have single : table.queued = 1 := isRing.counted
  unfold unlink
  rw [if_pos single, pure_bind, Word.sub_eq single.ge]
  refine .pure ⟨isRing_forget tracked List.not_mem_nil List.nodup_nil ?_ .nil rfl ?_ (fun _ => rfl)
    (congrArg (· - 1) single), ⟨rfl, rfl, rfl, rfl, fun _ => rfl⟩⟩
  · intro other differs
    exact Iff.trans (by simpa using differs) (isRing.queued other)
  · rintro other ⟨⟩

/-- The links of a frame lead to the frames behind and before it around the ring. -/
theorem IsRing.neighbours {before after : List FrameNumber} {record : FrameRecord}
    (isRing : table.IsRing (before ++ frame :: after)) (others : after ++ before ≠ [])
    (found : table.find? frame = some record) :
    table.pool.frameAt record.next = (after ++ before).head others ∧
      table.pool.frameAt record.prev = (after ++ before).getLast others := by
  have circular := Circular.rotate.mp isRing.circular
  obtain ⟨⟨next, _⟩, _, _, prev⟩ := (Circular.cons_iff others).mp circular
  constructor
  · exact Option.some.inj ((field?_of_find? found _).symm.trans next)
  · exact Option.some.inj ((field?_of_find? found _).symm.trans prev)

section Between

variable {before after : List FrameNumber}

theorem IsRing.nodup_rotated (isRing : table.IsRing (before ++ frame :: after)) :
    (frame :: (after ++ before)).Nodup := by
  have rotated : (before ++ frame :: after).Perm (frame :: after ++ before) :=
    List.perm_append_comm
  exact rotated.nodup_iff.mp isRing.nodup

/-- The head is on the first frame again once it has moved on from one that leaves. -/
theorem IsRing.head_past (isRing : table.IsRing (before ++ frame :: after))
    (others : after ++ before ≠ []) :
    (if table.head = some frame then some ((after ++ before).head others) else table.head) =
      (before ++ after).head? := by
  rw [isRing.head]
  cases before with
  | nil =>
      rw [List.nil_append, List.head?_cons, if_pos rfl, List.nil_append]
      simp only [List.append_nil]
      exact (List.head?_eq_some_head _).symm
  | cons first before =>
      have apart := (List.nodup_cons.mp isRing.nodup_rotated).1
      have differs : first ≠ frame := fun same => apart (by simp [same])
      simp [differs]

theorem IsRing.hand_past (isRing : table.IsRing (before ++ frame :: after))
    (others : after ++ before ≠ []) : ∃ other ∈ before ++ after,
      (if table.hand = some frame then some ((after ++ before).head others) else table.hand) =
        some other := by
  split
  · refine ⟨_, ?_, rfl⟩
    exact List.perm_append_comm.mem_iff.mp (List.head_mem others)
  · rename_i elsewhere
    cases pointed : table.hand with
    | none => exact absurd (isRing.stopped pointed) (by simp)
    | some other =>
        have inside := isRing.hand other pointed
        have differs : other ≠ frame := fun same => elsewhere (same ▸ pointed)
        exact ⟨other, by simpa [differs] using inside, rfl⟩

/-- The neighbours of a frame are linked past it, and head and hand move on to the next one. -/
theorem bypass_satisfies (isRing : table.IsRing (before ++ frame :: after))
    (others : after ++ before ≠ []) (place : table.pool.frameAt index = frame) :
    (table.bypass index).Satisfies tolerated fun passed =>
      Circular (Linked passed.next? passed.prev?) (before ++ after) ∧
        passed.head = (before ++ after).head? ∧
        (∃ hand ∈ before ++ after, passed.hand = some hand) ∧
        passed.queued = table.queued ∧ frame ∈ passed ∧
        (∀ other, passed.field? FrameRecord.referenced other =
          table.field? FrameRecord.referenced other) ∧ table.Rewires passed := by
  have inRing : ∀ other, other ∈ after ++ before → other ∈ before ++ frame :: after :=
    fun other inside => List.perm_append_comm.mem_iff.mp (List.mem_cons_of_mem frame inside)
  have tracked : frame ∈ table := isRing.mem (List.mem_append_right before List.mem_cons_self)
  obtain ⟨record, found⟩ := mem_iff.mp tracked
  obtain ⟨hnext, hprev⟩ := isRing.neighbours others found
  have nextTracked := isRing.mem (inRing _ (hnext ▸ List.head_mem others))
  have prevTracked := isRing.mem (inRing _ (hprev ▸ List.getLast_mem others))
  unfold bypass
  rw [record_eq place found, Checked.ok_bind]
  refine .bind (modifyRecord_satisfies rfl prevTracked) fun joined hjoined => ?_
  refine .bind (modifyRecord_satisfies (hjoined.pool ▸ rfl) (hjoined.mem nextTracked))
    fun closed hclosed => ?_
  have rest : closed = { table with records := closed.records } := hclosed.rest_trans hjoined.rest
  have pool : closed.pool = table.pool := by rw [rest]
  have circular : Circular (Linked closed.next? closed.prev?) (before ++ after) := by
    unfold next? prev?
    rw [pool]
    refine Circular.rotate.mp (Circular.remove others (List.nodup_cons.mp isRing.nodup_rotated).2
      (Circular.rotate.mp isRing.circular) ?_ ?_ ?_ ?_)
    · rw [← hprev, ← hnext]
      exact (hclosed.kept (fun _ => rfl) _).trans (hjoined.set prevTracked fun _ => rfl)
    · intro a _ notLast
      exact (hclosed.kept (fun _ => rfl) a).trans (hjoined.elsewhere (hprev ▸ notLast))
    · rw [← hprev, ← hnext]
      exact hclosed.set (hjoined.mem nextTracked) fun _ => rfl
    · intro a _ notHead
      exact (hclosed.elsewhere (hnext ▸ notHead)).trans (hjoined.kept (fun _ => rfl) a)
  have past := FramePool.map_past place record.next
  obtain ⟨hand, inside, moved⟩ := isRing.hand_past others
  refine .pure ⟨circular, ?_, ⟨hand, inside, ?_⟩, ?_, hclosed.mem (hjoined.mem tracked),
    fun other => (hclosed.kept (fun _ => rfl) other).trans (hjoined.kept (fun _ => rfl) other),
    ⟨pool, hclosed.size.trans hjoined.size, ?_, ?_,
      fun other => (hclosed.kept (fun _ => rfl) other).trans (hjoined.kept (fun _ => rfl) other)⟩⟩
  · rw [← isRing.head_past others, ← hnext, rest]
    exact past table.headIndex
  · rw [← moved, ← hnext, rest]
    exact past table.handIndex
  · rw [rest]
  · rw [rest]
  · rw [rest]

/-- A frame with others before or after it leaves them in their order. -/
theorem unlink_between_satisfies (isRing : table.IsRing (before ++ frame :: after))
    (others : after ++ before ≠ []) (place : table.pool.frameAt index = frame) :
    (table.unlink index).Satisfies tolerated fun unlinked =>
      (unlinked.forget frame).IsRing (before ++ after) ∧ table.Rewires unlinked := by
  obtain ⟨apart, nodup⟩ := List.nodup_cons.mp isRing.nodup_rotated
  have rotated : (after ++ before).Perm (before ++ after) := List.perm_append_comm
  have length : table.queued = (before ++ after).length + 1 := by
    rw [isRing.counted]
    simp only [List.length_append, List.length_cons]
    omega
  have positive : 0 < (before ++ after).length :=
    rotated.length_eq ▸ List.length_pos_iff.mpr others
  unfold unlink
  rw [if_neg (by omega)]
  refine .bind (bypass_satisfies isRing others place) ?_
  rintro passed ⟨circular, head, ⟨hand, inside, pointed⟩, queued, tracked, marks, rewires⟩
  rw [Word.sub_eq (by omega)]
  refine .pure ⟨isRing_forget tracked (mt rotated.mem_iff.mpr apart) (rotated.nodup_iff.mp nodup)
    ?_ circular head ?_ ?_ ?_, ⟨rewires.pool, rewires.size, rewires.resident, rewires.evictions,
      rewires.owners⟩⟩
  · intro other differs
    change _ ↔ passed.field? _ other = _
    rw [marks, ← isRing.queued]
    simp [differs]
  · intro other here
    exact Option.some.inj (pointed.symm.trans here) ▸ inside
  · intro stopped
    cases pointed.symm.trans stopped
  · change passed.queued - 1 = _
    rw [queued, length, Nat.add_sub_cancel]

end Between

/-- A frame that is taken out leaves the ring, once its record is forgotten. -/
theorem unlink_satisfies (isRing : table.IsRing ring) (place : table.pool.frameAt index = frame)
    (member : frame ∈ ring) : (table.unlink index).Satisfies tolerated fun unlinked =>
      (unlinked.forget frame).IsRing (ring.erase frame) ∧ table.Rewires unlinked := by
  obtain ⟨before, after, rfl⟩ := List.append_of_mem member
  have notBefore : frame ∉ before := fun inside =>
    (List.nodup_append.mp isRing.nodup).2.2 frame inside frame List.mem_cons_self rfl
  rw [List.erase_append_right _ notBefore, List.erase_cons_head]
  by_cases alone : after ++ before = []
  · obtain ⟨rfl, rfl⟩ := List.append_eq_nil_iff.mp alone
    exact unlink_only_satisfies isRing index
  · exact unlink_between_satisfies isRing alone place

end FrameTable
end DemandPaging
