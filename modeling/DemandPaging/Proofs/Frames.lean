import Mathlib.Data.List.Perm.Subperm
import DemandPaging.Proofs.Ring

/-!
Frames are conserved. Every frame of the pool is either free or tracked, exactly once,
and only tracked frames are in the ring. Each operation keeps this up and says what it
does to the owners and to the contents of the frames.
-/

namespace DemandPaging

variable {arch : Architecture} {tolerated unreached : Violation → Prop} {frame : FrameNumber}

namespace FramePool

variable {pool : FramePool arch}

def page (pool : FramePool arch) (frame : FrameNumber) : Page :=
  pool.contents.getD frame Page.zero

/-- Violations met in reaching frames of the pool are tolerated. -/
def Addressable (tolerated : Violation → Prop) (pool : FramePool arch) : Prop :=
  ∀ frame, pool.contains frame →
    (∀ violation, pool.reach frame = .error violation → tolerated violation) ∧
      ∀ violation, frame.frameStart arch = .error violation → tolerated violation

def frames (pool : FramePool arch) : List FrameNumber :=
  (List.range pool.total).map fun i => ⟨pool.base.value + i⟩

theorem mem_frames : frame ∈ pool.frames ↔ pool.contains frame = true := by
  simp only [frames, contains, List.mem_map, List.mem_range, Bool.and_eq_true, decide_eq_true_eq]
  constructor
  · rintro ⟨i, small, rfl⟩
    simp [small]
  · rintro ⟨above, small⟩
    exact ⟨frame.value - pool.base.value, small, Number.ext (by simp; omega)⟩

theorem addressable_of_all
    (reaches : (pool.frames.all fun frame =>
      (pool.reach frame).isOk && (frame.frameStart arch).isOk) = true) :
    pool.Addressable fun _ => False := by
  intro frame inside
  have both := List.all_eq_true.mp reaches frame (mem_frames.mpr inside)
  obtain ⟨reached, started⟩ := Bool.and_eq_true_iff.mp both
  constructor
  · intro violation failed
    rw [failed] at reached
    cases reached
  · intro violation failed
    rw [failed] at started
    cases started

theorem nodup_frames (pool : FramePool arch) : pool.frames.Nodup := by
  refine List.Nodup.map_on ?_ List.nodup_range
  intro i _ j _ same
  have := congrArg Number.value same
  simpa using this

theorem bytes_satisfies (addressable : pool.Addressable tolerated)
    (inside : pool.contains frame) :
    (pool.bytes frame).Satisfies tolerated fun contents => contents = pool.page frame := by
  unfold bytes
  refine .bind (.of_errors (addressable frame inside).1) ?_
  intro _ _
  exact .pure rfl

theorem setBytes_satisfies (addressable : pool.Addressable tolerated)
    (inside : pool.contains frame) (contents : Page) :
    (pool.setBytes frame contents).Satisfies tolerated fun filled =>
      filled = { pool with contents := pool.contents.insert frame contents } := by
  unfold setBytes
  refine .bind (.of_errors (addressable frame inside).1) ?_
  intro _ _
  exact .pure rfl

theorem write_satisfies (addressable : pool.Addressable tolerated)
    (inside : pool.contains frame) {start : Nat} {source : Bytes}
    (fits : start + source.size ≤ pageSize) :
    (pool.write frame start source).Satisfies tolerated fun filled =>
      filled = { pool with
        contents := pool.contents.insert frame ((pool.page frame).overwrite start source) } := by
  have word : Word.add start source.size = .ok (start + source.size) :=
    if_pos (Nat.lt_of_le_of_lt fits (by decide))
  unfold write
  refine .bind (bytes_satisfies addressable inside) ?_
  rintro contents rfl
  rw [word, Checked.ok_bind]
  refine .bind (.require fits) ?_
  intro _ _
  exact setBytes_satisfies addressable inside _

theorem read_satisfies (addressable : pool.Addressable tolerated)
    (inside : pool.contains frame) {start length : Nat} (fits : start + length ≤ pageSize) :
    (pool.read frame start length).Satisfies tolerated fun bytes =>
      bytes = (pool.page frame).slice start length := by
  have word : Word.add start length = .ok (start + length) :=
    if_pos (Nat.lt_of_le_of_lt fits (by decide))
  unfold read
  refine .bind (bytes_satisfies addressable inside) ?_
  rintro contents rfl
  rw [word, Checked.ok_bind]
  exact .bind (.require fits) fun _ _ => .pure rfl

theorem deallocate_eq (inside : pool.contains frame) (notFree : frame ∉ pool.free) :
    pool.deallocate frame = .ok { pool with free := frame :: pool.free } := by
  unfold deallocate require
  rw [if_pos inside, if_pos notFree]
  rfl

end FramePool

namespace FrameTable

variable {table : FrameTable arch} {ring : List FrameNumber} {index : FrameIndex}

/-- Every frame of the pool is free or tracked, once, and the counts say how many are. -/
structure WellFormed (tolerated : Violation → Prop) (table : FrameTable arch)
    (ring : List FrameNumber) : Prop where
  isRing : table.IsRing ring
  nodup : table.pool.free.Nodup
  contains : ∀ frame, table.pool.contains frame ↔ frame ∈ table.pool.free ∨ frame ∈ table
  untracked : ∀ frame, frame ∈ table.pool.free → frame ∉ table
  size : table.records.size = table.pool.total
  counted : table.resident + table.free = table.total
  addressable : table.pool.Addressable tolerated

def refill (table : FrameTable arch) (frame : FrameNumber) (contents : Page) : FrameTable arch :=
  { table with
    pool := { table.pool with contents := table.pool.contents.insert frame contents } }

theorem refill_page (table : FrameTable arch) (frame : FrameNumber) (contents : Page) :
    (table.refill frame contents).pool.page =
      Function.update table.pool.page frame contents := by
  funext other
  unfold FramePool.page refill
  rw [Std.ExtTreeMap.getD_insert]
  by_cases same : other = frame
  · subst same
    simp
  · simp [same, Ne.symm same]

/-- The contents of one frame are others, and nothing else is. -/
structure Fills (tolerated : Violation → Prop) (table : FrameTable arch) (frame : FrameNumber)
    (contents : Page) (filled : FrameTable arch) : Prop where
  wellFormed : ∀ ring, table.WellFormed tolerated ring → filled.WellFormed tolerated ring
  owners : filled.ownerOf = table.ownerOf
  pages : filled.pool.page = Function.update table.pool.page frame contents

/-- The table after a frame in use was given to the pool. -/
def offer (table : FrameTable arch) (frame : FrameNumber) : FrameTable arch :=
  { table with pool := { table.pool with free := frame :: table.pool.free } }

namespace WellFormed

theorem inside_of_tracked (wellFormed : table.WellFormed tolerated ring)
    (tracked : frame ∈ table) : table.pool.contains frame :=
  (wellFormed.contains frame).mpr (.inr tracked)

theorem inside_of_offered (wellFormed : (table.offer frame).WellFormed tolerated ring) :
    table.pool.contains frame :=
  (wellFormed.contains frame).mpr (.inl List.mem_cons_self)

/-- Once every frame in use is in the ring, the ring is as long as there are frames in use. -/
theorem length_eq_resident (wellFormed : table.WellFormed tolerated ring)
    (settled : ∀ frame, frame ∈ table → frame ∈ ring) : ring.length = table.resident := by
  have parts : (ring ++ table.pool.free).Perm table.pool.frames := by
    refine (List.perm_ext_iff_of_nodup ?_ table.pool.nodup_frames).mpr fun frame => ?_
    · refine List.nodup_append'.mpr ⟨wellFormed.isRing.nodup, wellFormed.nodup, ?_⟩
      intro frame member free
      exact wellFormed.untracked frame free (wellFormed.isRing.mem member)
    · rw [List.mem_append, FramePool.mem_frames, wellFormed.contains, or_comm]
      exact or_congr_right ⟨wellFormed.isRing.mem, settled frame⟩
  have lengths := parts.length_eq
  have counted := wellFormed.counted
  unfold FramePool.frames at lengths
  unfold free total at counted
  rw [List.length_append, List.length_map, List.length_range] at lengths
  omega

theorem resident_pos (wellFormed : table.WellFormed tolerated ring) (tracked : frame ∈ table) :
    1 ≤ table.resident := by
  have distinct : (frame :: table.pool.free).Nodup :=
    List.nodup_cons.mpr ⟨fun free => wellFormed.untracked frame free tracked, wellFormed.nodup⟩
  have inside : frame :: table.pool.free ⊆ table.pool.frames := by
    intro other member
    rw [FramePool.mem_frames, wellFormed.contains]
    rcases List.mem_cons.mp member with rfl | free
    · exact .inr tracked
    · exact .inl free
  have fewer := (List.Nodup.subperm distinct inside).length_le
  have counted := wellFormed.counted
  unfold FramePool.frames at fewer
  unfold free total at counted
  rw [List.length_cons, List.length_map, List.length_range] at fewer
  omega

theorem lt_size (wellFormed : table.WellFormed tolerated ring) {index : FrameIndex}
    (place : table.pool.indexOf? frame = some index) : index.value < table.records.size := by
  obtain ⟨inside, rfl⟩ := FramePool.indexOf?_eq_some.mp place
  rw [wellFormed.size]
  exact FramePool.contains_frameAt.mp inside

theorem offer_first (wellFormed : table.WellFormed tolerated ring) {free : List FrameNumber}
    (stack : table.pool.free = frame :: free) :
    (({ table with pool := { table.pool with free } } : FrameTable arch).offer frame).WellFormed
      tolerated ring := by
  unfold offer
  rw [← stack]
  exact wellFormed

theorem unowned_of_free (wellFormed : table.WellFormed tolerated ring)
    (free : frame ∈ table.pool.free) : table.ownerOf frame = none := by
  have untracked := wellFormed.untracked frame free
  rwa [← ownerOf_isSome, Option.not_isSome_iff_eq_none] at untracked

theorem refill (wellFormed : table.WellFormed tolerated ring) (contents : Page) :
    (table.refill frame contents).WellFormed tolerated ring :=
  ⟨wellFormed.isRing.congr rfl rfl rfl rfl rfl, wellFormed.nodup, wellFormed.contains,
    wellFormed.untracked, wellFormed.size, wellFormed.counted, wellFormed.addressable⟩

theorem offer_forget (wellFormed : table.WellFormed tolerated ring)
    (tracked : frame ∈ table) {left : FrameTable arch} {rest : List FrameNumber}
    (isRing : left.IsRing rest) (pool : left.pool = table.pool)
    (size : left.records.size = table.records.size) (resident : left.resident + 1 = table.resident)
    (owners : ∀ other, left.ownerOf other =
      if other = frame then none else table.ownerOf other) :
    (left.offer frame).WellFormed tolerated rest := by
  have notFree : frame ∉ left.pool.free := by
    intro free
    rw [pool] at free
    exact wellFormed.untracked frame free tracked
  have kept : ∀ other, other ∈ left ↔ other ≠ frame ∧ other ∈ table := by
    intro other
    rw [← ownerOf_isSome, ← ownerOf_isSome, owners]
    by_cases same : other = frame <;> simp [same]
  refine ⟨isRing.congr rfl rfl rfl rfl rfl, List.nodup_cons.mpr ⟨notFree, ?_⟩, ?_, ?_, ?_, ?_, ?_⟩
  · rw [pool]
    exact wellFormed.nodup
  · intro other
    change left.pool.contains other ↔ other ∈ frame :: left.pool.free ∨ other ∈ left
    rw [pool, wellFormed.contains, kept, List.mem_cons]
    by_cases same : other = frame
    · subst same
      simp [tracked]
    · simp [same]
  · intro other free
    change other ∉ left
    rw [kept]
    rintro ⟨differs, tracked⟩
    refine wellFormed.untracked other ?_ tracked
    rw [← pool]
    exact (List.mem_cons.mp free).resolve_left differs
  · change left.records.size = left.pool.total
    rw [size, pool, wellFormed.size]
  · change left.resident + (left.pool.free.length + 1) = left.pool.total
    rw [pool, Nat.add_comm _ 1, ← Nat.add_assoc, resident]
    exact wellFormed.counted
  · change left.pool.Addressable tolerated
    rw [pool]
    exact wellFormed.addressable

end WellFormed

theorem refill_fills (table : FrameTable arch) (frame : FrameNumber) (contents : Page) :
    table.Fills tolerated frame contents (table.refill frame contents) :=
  ⟨fun _ wellFormed => wellFormed.refill contents, rfl, table.refill_page frame contents⟩

theorem Fills.refl (table : FrameTable arch) (frame : FrameNumber) :
    table.Fills tolerated frame (table.pool.page frame) table :=
  ⟨fun _ wellFormed => wellFormed, rfl, (Function.update_eq_self frame _).symm⟩

theorem WellFormed.rewire (wellFormed : table.WellFormed tolerated ring)
    {rewired : FrameTable arch} {ring' : List FrameNumber} (isRing : rewired.IsRing ring')
    (rewires : table.Rewires rewired) : rewired.WellFormed tolerated ring' := by
  have kept : ∀ other, other ∈ rewired ↔ other ∈ table := by
    intro other
    rw [← ownerOf_isSome, ← ownerOf_isSome, rewires.owners]
  obtain ⟨_, nodup, contains, untracked, size, counted, addressable⟩ := wellFormed
  unfold free total at counted
  rw [← rewires.pool] at nodup contains untracked size counted addressable
  refine ⟨isRing, nodup, ?_, ?_, rewires.size.trans size, rewires.resident ▸ counted, addressable⟩
  · intro other
    rw [contains, kept]
  · intro other free
    rw [kept]
    exact untracked other free

theorem bytes_satisfies (wellFormed : table.WellFormed tolerated ring)
    (inside : table.pool.contains frame) :
    (table.bytes frame).Satisfies tolerated fun contents => contents = table.pool.page frame :=
  FramePool.bytes_satisfies wellFormed.addressable inside

theorem setBytes_satisfies (addressable : table.pool.Addressable tolerated)
    (inside : table.pool.contains frame) (contents : Page) :
    (table.setBytes frame contents).Satisfies tolerated fun filled =>
      filled = table.refill frame contents := by
  unfold setBytes
  refine .bind (FramePool.setBytes_satisfies addressable inside contents) ?_
  rintro pool rfl
  exact .pure rfl

theorem write_satisfies (wellFormed : table.WellFormed tolerated ring)
    (inside : table.pool.contains frame) {start : Nat} {source : Bytes}
    (fits : start + source.size ≤ pageSize) :
    (table.write frame start source).Satisfies tolerated fun filled =>
      filled = table.refill frame ((table.pool.page frame).overwrite start source) := by
  unfold write
  refine .bind (FramePool.write_satisfies wellFormed.addressable inside fits) ?_
  rintro pool rfl
  exact .pure rfl

theorem read_satisfies (wellFormed : table.WellFormed tolerated ring)
    (inside : table.pool.contains frame) {start length : Nat} (fits : start + length ≤ pageSize) :
    (table.read frame start length).Satisfies tolerated fun bytes =>
      bytes = (table.pool.page frame).slice start length :=
  FramePool.read_satisfies wellFormed.addressable inside fits

theorem clear_satisfies (wellFormed : table.WellFormed unreached ring) (tracked : frame ∈ table)
    (place : table.pool.indexOf? frame = some index) {unlinked : FrameTable arch}
    {rest : List FrameNumber} (isRing : (unlinked.forget frame).IsRing rest)
    (rewires : table.Rewires unlinked) :
    (unlinked.clear index).Satisfies tolerated fun left =>
      (left.offer frame).WellFormed unreached rest ∧ left.pool = table.pool ∧
        left.evictions = table.evictions ∧
          left.ownerOf = Function.update table.ownerOf frame none := by
  have positive : 1 ≤ unlinked.resident := rewires.resident ▸ wellFormed.resident_pos tracked
  have still : frame ∈ unlinked := by
    rw [← ownerOf_isSome, rewires.owners, ownerOf_isSome]
    exact tracked
  have owners : ∀ other, (unlinked.forget frame).ownerOf other =
      if other = frame then none else table.ownerOf other := by
    intro other
    rw [← rewires.owners]
    exact forget_field? still (fun record => (record.owner, record.page)) other
  obtain ⟨untouched, size⟩ := unlinked.forget_rest frame
  have pool : (unlinked.forget frame).pool = table.pool := by
    rw [untouched]
    exact rewires.pool
  refine .of_eq (clear_eq (rewires.pool ▸ place) still positive) ⟨?_, pool, ?_, ?_⟩
  · refine wellFormed.offer_forget tracked (isRing.congr rfl rfl rfl rfl rfl) pool
      (size.trans rewires.size) ?_ owners
    rw [← rewires.resident]
    exact Nat.sub_add_cancel positive
  · rw [untouched]
    exact rewires.evictions
  · funext other
    rw [Function.update_apply]
    exact owners other

theorem drop_satisfies (wellFormed : table.WellFormed tolerated ring)
    (place : table.pool.frameAt index = frame) (member : frame ∈ ring) :
    (table.drop index).Satisfies tolerated fun dropped =>
      (dropped.offer frame).WellFormed tolerated (ring.erase frame) ∧
        dropped.pool = table.pool ∧ dropped.evictions = table.evictions ∧
          dropped.ownerOf = Function.update table.ownerOf frame none := by
  have tracked := wellFormed.isRing.mem member
  have place' := FramePool.indexOf?_eq_some.mpr ⟨wellFormed.inside_of_tracked tracked, place⟩
  unfold drop
  refine .bind (unlink_satisfies wellFormed.isRing place member) ?_
  rintro unlinked ⟨isRing, rewires⟩
  exact clear_satisfies wellFormed tracked place' isRing rewires

theorem IsRing.mem_iff (isRing : table.IsRing ring) {record : FrameRecord}
    (found : table.find? frame = some record) : frame ∈ ring ↔ record.referenced = false := by
  rw [isRing.queued, field?_of_find? found, Option.some_inj]

/-- Giving a frame back does not touch its contents, so it does not matter whether they can be
reached. -/
theorem release_satisfies (wellFormed : table.WellFormed unreached ring)
    (tracked : frame ∈ table) :
    (table.release frame).Satisfies tolerated fun released =>
      released.WellFormed unreached (ring.erase frame) ∧
        released.pool.page = table.pool.page ∧
          released.ownerOf = Function.update table.ownerOf frame none := by
  obtain ⟨record, found⟩ := FrameTable.mem_iff.mp tracked
  obtain ⟨index, place⟩ := exists_index tracked
  have unlinks : (if record.referenced then pure table else table.unlink index).Satisfies tolerated
      fun unlinked => (unlinked.forget frame).IsRing (ring.erase frame) ∧
        table.Rewires unlinked := by
    by_cases held : record.referenced = true
    · have outside : frame ∉ ring := by
        rw [wellFormed.isRing.mem_iff found, held]
        decide
      rw [if_pos held, List.erase_of_not_mem outside]
      exact .pure ⟨wellFormed.isRing.forget tracked outside, rfl, rfl, rfl, rfl, fun _ => rfl⟩
    · have member : frame ∈ ring := by
        rw [wellFormed.isRing.mem_iff found]
        exact Bool.not_eq_true _ ▸ held
      rw [if_neg held]
      exact unlink_satisfies wellFormed.isRing (FramePool.indexOf?_eq_some.mp place).2 member
  unfold release
  rw [FramePool.indexOf_eq place, Checked.ok_bind, entry_eq place found, Checked.ok_bind]
  refine .bind unlinks ?_
  rintro unlinked ⟨isRing, rewires⟩
  refine .bind (clear_satisfies wellFormed tracked place isRing rewires) ?_
  rintro left ⟨offered, pool, _, owners⟩
  have notFree : frame ∉ left.pool.free := (List.nodup_cons.mp offered.nodup).1
  rw [FramePool.deallocate_eq offered.inside_of_offered notFree]
  exact .pure ⟨offered, show left.pool.page = table.pool.page by rw [pool], owners⟩

theorem markNotReferenced_satisfies (wellFormed : table.WellFormed unreached ring)
    (tracked : frame ∈ table) (held : frame ∉ ring) :
    (table.markNotReferenced frame).Satisfies tolerated fun (known, marked) =>
      known = true ∧ marked.WellFormed unreached (ring ++ [frame]) ∧
        marked.pool = table.pool ∧ marked.ownerOf = table.ownerOf := by
  obtain ⟨record, found⟩ := FrameTable.mem_iff.mp tracked
  obtain ⟨index, place⟩ := exists_index tracked
  have referenced : record.referenced = true := by
    rwa [wellFormed.isRing.mem_iff found, Bool.not_eq_false] at held
  have status : table.field? FrameRecord.referenced frame = some true := by
    rw [field?_of_find? found, referenced]
  unfold markNotReferenced
  simp only [place, entry_eq place found, Checked.ok_bind, if_pos referenced]
  refine .bind (link_satisfies wellFormed.isRing (FramePool.indexOf?_eq_some.mp place).2 status) ?_
  rintro linked ⟨isRing, rewires⟩
  exact .pure ⟨rfl, wellFormed.rewire isRing rewires, rewires.pool, funext rewires.owners⟩

def enter (table : FrameTable arch) (index : FrameIndex) (record : FrameRecord) :
    FrameTable arch :=
  { table with
    records := table.records.setIfInBounds index.value (some record)
    resident := table.resident + 1 }

section Enter

variable {record : FrameRecord}

theorem enter_find? (place : table.pool.indexOf? frame = some index)
    (small : index.value < table.records.size) (other : FrameNumber) :
    (table.enter index record).find? other =
      if other = frame then some record else table.find? other :=
  find?_set place small (some record) other

theorem enter_ownerOf (place : table.pool.indexOf? frame = some index)
    (small : index.value < table.records.size) : (table.enter index record).ownerOf =
      Function.update table.ownerOf frame (some (record.owner, record.page)) := by
  funext other
  unfold ownerOf
  rw [Function.update_apply, enter_find? place small]
  split <;> rfl

theorem IsRing.enter (isRing : table.IsRing ring) (untracked : frame ∉ table)
    (place : table.pool.indexOf? frame = some index) (small : index.value < table.records.size)
    (held : record.referenced = true) : (table.enter index record).IsRing ring := by
  have outside : frame ∉ ring := fun member => untracked (isRing.mem member)
  have kept : ∀ {β : Type} (field : FrameRecord → β) (other : FrameNumber), other ≠ frame →
      (table.enter index record).field? field other = table.field? field other := by
    intro β field other differs
    unfold field?
    rw [enter_find? place small, if_neg differs]
  refine ⟨isRing.nodup, fun other => ?_, ?_, isRing.head, isRing.hand, isRing.stopped,
    isRing.counted⟩
  · by_cases same : other = frame
    · subst same
      simpa [field?, enter_find? place small, held] using outside
    · rw [kept _ other same]
      exact isRing.queued other
  · refine isRing.circular.of_mem fun a b ha hb linked => ⟨?_, ?_⟩
    · exact (kept _ a (ne_of_mem_of_not_mem ha outside)).trans linked.1
    · exact (kept _ b (ne_of_mem_of_not_mem hb outside)).trans linked.2

theorem WellFormed.enter (wellFormed : (table.offer frame).WellFormed tolerated ring)
    (place : table.pool.indexOf? frame = some index) (held : record.referenced = true) :
    (table.enter index record).WellFormed tolerated ring := by
  have untracked : frame ∉ table := wellFormed.untracked frame List.mem_cons_self
  have small : index.value < table.records.size := wellFormed.lt_size place
  obtain ⟨notFree, nodup⟩ := List.nodup_cons.mp wellFormed.nodup
  have members : ∀ other, other ∈ table.enter index record ↔ other = frame ∨ other ∈ table := by
    intro other
    rw [← ownerOf_isSome, enter_ownerOf place small, Function.update_apply, ← ownerOf_isSome]
    by_cases same : other = frame <;> simp [same]
  have isRing : table.IsRing ring := wellFormed.isRing.congr rfl rfl rfl rfl rfl
  refine ⟨isRing.enter untracked place small held, nodup, fun other => ?_, fun other free => ?_,
    Array.size_setIfInBounds.trans wellFormed.size, ?_, wellFormed.addressable⟩
  · refine (wellFormed.contains other).trans ?_
    change other ∈ frame :: table.pool.free ∨ other ∈ table ↔ _
    rw [members, List.mem_cons, or_assoc, or_left_comm]
    rfl
  · rw [members]
    rintro (rfl | tracked)
    · exact notFree free
    · exact wellFormed.untracked other (List.mem_cons_of_mem _ free) tracked
  · have counted : table.resident + (table.pool.free.length + 1) = table.total :=
      wellFormed.counted
    change table.resident + 1 + table.pool.free.length = table.total
    omega

end Enter

theorem entry_of_untracked (place : table.pool.indexOf? frame = some index)
    (small : index.value < table.records.size) (untracked : frame ∉ table) :
    table.entry index = .ok none := by
  have missing := find?_eq_none.mpr untracked
  rw [find?_of_index place, Array.getElem?_eq_getElem small, Option.join_some] at missing
  unfold entry
  rw [Array.getElem?_eq_getElem small, missing]

theorem setBytes_eq {filled : FrameTable arch} {contents : Page}
    (done : table.setBytes frame contents = .ok filled) : filled = table.refill frame contents := by
  have fills : (table.setBytes frame contents).Satisfies (fun _ => True) fun filled =>
      filled = table.refill frame contents :=
    .bind (.bind .any fun _ _ => .pure rfl) fun _ same => .pure (same ▸ rfl)
  rw [done] at fills
  exact fills

/-- A frame that gets an owner is entered at its place, and cleared if that is asked for. -/
theorem track_enters (request : FrameRequest) (owner : ProcessId) (page : PageNumber) :
    (table.track frame request owner page).Satisfies (fun _ => True) fun after =>
      ∃ index, table.pool.indexOf? frame = some index ∧ index.value < table.records.size ∧
        after = (if request.zeroed then table.refill frame Page.zero else table).enter index
          { owner, page, referenced := true, next := index, prev := index } := by
  have clears : (if request.zeroed then table.setBytes frame Page.zero else pure table).Satisfies
      (fun _ => True) fun cleared =>
        cleared = if request.zeroed then table.refill frame Page.zero else table := by
    split
    · exact .mono (.of_errors fun _ _ => trivial) fun _ => setBytes_eq
    · exact .pure rfl
  unfold track
  refine .bind clears ?_
  rintro cleared same
  have pool : cleared.pool.indexOf? = table.pool.indexOf? := by
    rw [same]
    split <;> rfl
  have records : cleared.records = table.records := by
    rw [same]
    split <;> rfl
  rw [← same, ← pool, ← records]
  cases place : cleared.pool.indexOf? frame with
  | none =>
      unfold FramePool.indexOf
      rw [place]
      trivial
  | some index =>
      rw [FramePool.indexOf_eq place, Checked.ok_bind]
      refine .bind .any fun entry _ => .bind .any fun _ _ => ?_
      by_cases small : index.value < cleared.records.size
      · rw [setEntry_eq small]
        exact .pure ⟨index, rfl, small, rfl⟩
      · unfold setEntry require
        rw [if_neg small]
        trivial

theorem track_of_reach (wellFormed : (table.offer frame).WellFormed unreached ring)
    (request : FrameRequest) (reaches : request.zeroed = true →
      ∀ violation, table.pool.reach frame = .error violation → tolerated violation)
    (owner : ProcessId) (page : PageNumber) :
    (table.track frame request owner page).Satisfies tolerated fun tracking =>
      tracking.WellFormed unreached ring ∧ frame ∉ ring ∧
        (tracking.pool.page = if request.zeroed then
          Function.update table.pool.page frame Page.zero else table.pool.page) ∧
          tracking.ownerOf = Function.update table.ownerOf frame (some (owner, page)) := by
  have untracked : frame ∉ table := wellFormed.untracked frame List.mem_cons_self
  have outside : frame ∉ ring := fun member => untracked (wellFormed.isRing.mem member)
  obtain ⟨index, place⟩ := FramePool.exists_indexOf? wellFormed.inside_of_offered
  have clears : (if request.zeroed then table.setBytes frame Page.zero else pure table).Satisfies
      tolerated fun cleared => (cleared.offer frame).WellFormed unreached ring ∧
        cleared.pool.indexOf? = table.pool.indexOf? ∧
          (cleared.pool.page = if request.zeroed then
            Function.update table.pool.page frame Page.zero else table.pool.page) ∧
              cleared.ownerOf = table.ownerOf := by
    cases zeroed : request.zeroed with
    | true =>
        simp only [if_true]
        refine .bind (.bind (.of_errors (reaches zeroed)) fun _ _ => .pure rfl) ?_
        rintro _ rfl
        exact .pure ⟨wellFormed.refill Page.zero, rfl, table.refill_page frame Page.zero, rfl⟩
    | false =>
        simp only [Bool.false_eq_true, if_false]
        exact .pure ⟨wellFormed, rfl, rfl, rfl⟩
  unfold track
  refine .bind clears ?_
  rintro cleared ⟨offered, places, pages, owners⟩
  rw [← places] at place
  have untracked : frame ∉ cleared := offered.untracked frame List.mem_cons_self
  have small : index.value < cleared.records.size := offered.lt_size place
  rw [FramePool.indexOf_eq place, Checked.ok_bind, entry_of_untracked place small untracked,
    Checked.ok_bind]
  refine .bind (.require rfl) fun _ _ => ?_
  rw [setEntry_eq small, Checked.ok_bind]
  let record : FrameRecord := { owner, page, referenced := true, next := index, prev := index }
  have entered : (cleared.enter index record).WellFormed unreached ring := offered.enter place rfl
  have owned : (cleared.enter index record).ownerOf = _ := enter_ownerOf place small
  rw [owners] at owned
  exact .pure ⟨entered, outside, pages, owned⟩

theorem track_satisfies (wellFormed : (table.offer frame).WellFormed tolerated ring)
    (request : FrameRequest) (owner : ProcessId) (page : PageNumber) :
    (table.track frame request owner page).Satisfies tolerated fun tracking =>
      tracking.WellFormed tolerated ring ∧ frame ∉ ring ∧
        (tracking.pool.page = if request.zeroed then
          Function.update table.pool.page frame Page.zero else table.pool.page) ∧
          tracking.ownerOf = Function.update table.ownerOf frame (some (owner, page)) :=
  track_of_reach wellFormed request
    (fun _ => (wellFormed.addressable frame wellFormed.inside_of_offered).1) owner page

end FrameTable
end DemandPaging
