import DemandPaging.Frame.Table
import DemandPaging.Proofs.Outcome

/-!
The records of the frame table, by frame. The table keeps them by place, and the places of a
pool and its frames correspond one to one; so a change at a place is a change of one frame's
record and of no other.
-/

namespace DemandPaging

variable {arch : Architecture}

namespace FramePool

variable {pool : FramePool arch} {frame : FrameNumber} {index other : FrameIndex}

theorem indexOf?_eq_some :
    pool.indexOf? frame = some index ↔ pool.contains frame ∧ pool.frameAt index = frame := by
  unfold indexOf? frameAt
  constructor
  · intro found
    split at found
    · rename_i inside
      cases found
      refine ⟨inside, Number.ext ?_⟩
      simp only [contains, Bool.and_eq_true, decide_eq_true_eq] at inside
      exact Nat.add_sub_cancel' inside.1
    · cases found
  · rintro ⟨inside, rfl⟩
    rw [if_pos inside]
    exact congrArg some (Number.ext (Nat.add_sub_cancel_left ..))

theorem frameAt_inj : pool.frameAt index = pool.frameAt other ↔ index = other := by
  unfold frameAt
  rw [Number.ext_iff, Number.ext_iff]
  exact Nat.add_left_cancel_iff

theorem contains_frameAt : pool.contains (pool.frameAt index) = true ↔ index.value < pool.total := by
  simp [contains, frameAt]

theorem indexOf?_isSome : (pool.indexOf? frame).isSome = pool.contains frame := by
  unfold indexOf?
  split
  · rename_i inside
    exact inside.symm
  · rename_i outside
    exact ((Bool.not_eq_true _).mp outside).symm

theorem exists_indexOf? (inside : pool.contains frame) : ∃ index, pool.indexOf? frame = some index :=
  Option.isSome_iff_exists.mp (indexOf?_isSome.trans inside)

theorem indexOf_eq (place : pool.indexOf? frame = some index) : pool.indexOf frame = .ok index := by
  unfold indexOf
  rw [place]

theorem map_past (place : pool.frameAt index = frame) (next : FrameIndex)
    (cursor : Option FrameIndex) :
    (if cursor = some index then some next else cursor).map pool.frameAt =
      if cursor.map pool.frameAt = some frame then some (pool.frameAt next)
      else cursor.map pool.frameAt := by
  have here : cursor.map pool.frameAt = some frame ↔ cursor = some index := by
    rw [← place, ← Option.map_some]
    exact (Option.map_injective fun _ _ => frameAt_inj.mp).eq_iff
  by_cases same : cursor = some index
  · rw [if_pos same, if_pos (here.mpr same), Option.map_some]
  · rw [if_neg same, if_neg (mt here.mp same)]

end FramePool

namespace FrameTable

variable {table : FrameTable arch} {frame other : FrameNumber} {index : FrameIndex}
  {record : FrameRecord} {tolerated : Violation → Prop}

theorem find?_eq_some : table.find? frame = some record ↔
    ∃ index, table.pool.indexOf? frame = some index ∧
      table.records[index.value]? = some (some record) := by
  simp only [find?, Option.bind_eq_bind, Option.bind_eq_some_iff, Option.join_eq_some_iff]

theorem find?_of_index (place : table.pool.indexOf? frame = some index) :
    table.find? frame = table.records[index.value]?.join := by
  simp only [find?, place, Option.bind_eq_bind, Option.bind_some]

theorem mem_iff : frame ∈ table ↔ ∃ record, table.find? frame = some record :=
  Option.isSome_iff_exists

theorem mem_of_find? (found : table.find? frame = some record) : frame ∈ table :=
  mem_iff.mpr ⟨record, found⟩

theorem find?_eq_none : table.find? frame = none ↔ frame ∉ table := by
  rw [mem_iff, not_exists, Option.eq_none_iff_forall_ne_some]

theorem ownerOf_isSome : (table.ownerOf frame).isSome ↔ frame ∈ table := by
  unfold ownerOf
  rw [Option.isSome_map]
  rfl

theorem mem_of_ownerOf {owner : ProcessId × PageNumber}
    (owned : table.ownerOf frame = some owner) : frame ∈ table :=
  ownerOf_isSome.mp (Option.isSome_of_eq_some owned)

theorem ownerOf_of_find? (found : table.find? frame = some record) :
    table.ownerOf frame = some (record.owner, record.page) := by
  unfold ownerOf
  rw [found]
  rfl

theorem exists_index (tracked : frame ∈ table) :
    ∃ index, table.pool.indexOf? frame = some index := by
  obtain ⟨record, found⟩ := mem_iff.mp tracked
  obtain ⟨index, place, _⟩ := find?_eq_some.mp found
  exact ⟨index, place⟩

theorem entry_eq (place : table.pool.indexOf? frame = some index)
    (found : table.find? frame = some record) : table.entry index = .ok (some record) := by
  rw [find?_of_index place, Option.join_eq_some_iff] at found
  unfold entry
  rw [found]

theorem record_eq (place : table.pool.frameAt index = frame)
    (found : table.find? frame = some record) : table.record index = .ok record := by
  obtain ⟨_, place', _⟩ := find?_eq_some.mp found
  have inside := (FramePool.indexOf?_eq_some.mp place').1
  unfold FrameTable.record
  rw [entry_eq (FramePool.indexOf?_eq_some.mpr ⟨inside, place⟩) found]
  rfl

@[simp] theorem new_find? (pool : FramePool arch) (frame : FrameNumber) :
    ({ pool } : FrameTable arch).find? frame = none := by
  rw [Option.eq_none_iff_forall_ne_some]
  intro record found
  obtain ⟨index, _, entered⟩ := find?_eq_some.mp found
  rw [Array.getElem?_replicate] at entered
  split at entered <;> cases entered

section Fields

variable {β : Type} {field : FrameRecord → β} {value : β}

def field? (table : FrameTable arch) (field : FrameRecord → β) (frame : FrameNumber) : Option β :=
  (table.find? frame).map field

/-- The frame that a frame of the ring links forward to. -/
def next? (table : FrameTable arch) (frame : FrameNumber) : Option FrameNumber :=
  table.field? (fun record => table.pool.frameAt record.next) frame

/-- The frame that a frame of the ring links back to. -/
def prev? (table : FrameTable arch) (frame : FrameNumber) : Option FrameNumber :=
  table.field? (fun record => table.pool.frameAt record.prev) frame

theorem mem_of_field? (h : table.field? field frame = some value) : frame ∈ table := by
  obtain ⟨record, found, _⟩ := Option.map_eq_some_iff.mp h
  exact mem_of_find? found

theorem field?_const (tracked : frame ∈ table) (value : β) :
    table.field? (fun _ => value) frame = some value := by
  obtain ⟨record, found⟩ := mem_iff.mp tracked
  unfold field?
  rw [found]
  rfl

theorem field?_of_find? (found : table.find? frame = some record) (field : FrameRecord → β) :
    table.field? field frame = some (field record) := by
  unfold field?
  rw [found]
  rfl

end Fields

/-- What is entered at a place is found under the frame there, and under no other. -/
theorem find?_set (place : table.pool.indexOf? frame = some index)
    (small : index.value < table.records.size) (entry : Option FrameRecord)
    (other : FrameNumber) :
    ({ table with records := table.records.setIfInBounds index.value entry } :
      FrameTable arch).find? other = if other = frame then entry else table.find? other := by
  split
  · rename_i same
    subst same
    simp only [find?, place, Option.bind_eq_bind, Option.bind_some, Array.getElem?_setIfInBounds,
      if_pos small, if_true, Option.join_some]
  · rename_i apart
    cases place' : table.pool.indexOf? other with
    | none => simp only [find?, place', Option.bind_eq_bind, Option.bind_none]
    | some index' =>
        have differs : index.value ≠ index'.value := by
          intro same
          have here := (FramePool.indexOf?_eq_some.mp place).2
          have there := (FramePool.indexOf?_eq_some.mp place').2
          exact apart (by rw [← here, ← there, Number.ext same])
        simp only [find?, place', Option.bind_eq_bind, Option.bind_some,
          Array.getElem?_setIfInBounds, if_neg differs]

theorem lt_size (place : table.pool.indexOf? frame = some index) (tracked : frame ∈ table) :
    index.value < table.records.size := by
  obtain ⟨record, found⟩ := mem_iff.mp tracked
  rw [find?_of_index place, Option.join_eq_some_iff] at found
  exact (Array.getElem?_eq_some_iff.mp found).1

theorem setEntry_eq (small : index.value < table.records.size) (entry : Option FrameRecord) :
    table.setEntry index entry =
      .ok { table with records := table.records.setIfInBounds index.value entry } := by
  unfold setEntry require
  rw [if_pos small]
  rfl

/-- The table without the record of a frame. -/
def forget (table : FrameTable arch) (frame : FrameNumber) : FrameTable arch :=
  match table.pool.indexOf? frame with
  | some index => { table with records := table.records.setIfInBounds index.value none }
  | none => table

theorem forget_eq (place : table.pool.indexOf? frame = some index) : table.forget frame =
    { table with records := table.records.setIfInBounds index.value none } := by
  unfold forget
  rw [place]

theorem forget_rest (table : FrameTable arch) (frame : FrameNumber) :
    table.forget frame = { table with records := (table.forget frame).records } ∧
      (table.forget frame).records.size = table.records.size := by
  unfold forget
  split
  · exact ⟨rfl, Array.size_setIfInBounds⟩
  · exact ⟨rfl, rfl⟩

theorem forget_find? (tracked : frame ∈ table) (other : FrameNumber) :
    (table.forget frame).find? other = if other = frame then none else table.find? other := by
  obtain ⟨index, place⟩ := exists_index tracked
  rw [forget_eq place]
  exact find?_set place (lt_size place tracked) none other

theorem forget_pool (table : FrameTable arch) (frame : FrameNumber) :
    (table.forget frame).pool = table.pool := by
  rw [(table.forget_rest frame).1]

theorem forget_field? {β : Type} (tracked : frame ∈ table) (field : FrameRecord → β)
    (other : FrameNumber) : (table.forget frame).field? field other =
      if other = frame then none else table.field? field other := by
  unfold field?
  rw [forget_find? tracked]
  split <;> rfl

theorem clear_eq (place : table.pool.indexOf? frame = some index) (tracked : frame ∈ table)
    (positive : 1 ≤ table.resident) :
    table.clear index = .ok { table.forget frame with resident := table.resident - 1 } := by
  unfold clear
  rw [setEntry_eq (lt_size place tracked), forget_eq place, Checked.ok_bind, Word.sub_eq positive]
  rfl

/-- One record was changed, and nothing else. -/
structure Changes (table : FrameTable arch) (frame : FrameNumber)
    (change : FrameRecord → FrameRecord) (changed : FrameTable arch) : Prop where
  find : ∀ other, changed.find? other =
    if other = frame then (table.find? other).map change else table.find? other
  size : changed.records.size = table.records.size
  rest : changed = { table with records := changed.records }

namespace Changes

variable {β : Type} {field : FrameRecord → β} {change : FrameRecord → FrameRecord}
  {changed : FrameTable arch}

theorem pool (changes : table.Changes frame change changed) : changed.pool = table.pool := by
  rw [changes.rest]

theorem rest_trans {earlier : FrameTable arch} (changes : table.Changes frame change changed)
    (rest : table = { earlier with records := table.records }) :
    changed = { earlier with records := changed.records } :=
  changes.rest.trans (by rw [rest])

theorem kept (changes : table.Changes frame change changed)
    (untouched : ∀ record, field (change record) = field record) (other : FrameNumber) :
    changed.field? field other = table.field? field other := by
  unfold field?
  rw [changes.find]
  split
  · rw [Option.map_map, show field ∘ change = field from funext untouched]
  · rfl

theorem elsewhere (changes : table.Changes frame change changed) (apart : other ≠ frame) :
    changed.field? field other = table.field? field other := by
  unfold field?
  rw [changes.find, if_neg apart]

theorem mem (changes : table.Changes frame change changed) (tracked : other ∈ table) :
    other ∈ changed :=
  mem_of_field? ((changes.kept (fun _ => rfl) other).trans (field?_const tracked ()))

theorem set (changes : table.Changes frame change changed) (tracked : frame ∈ table)
    {value : β} (assigned : ∀ record, field (change record) = value) :
    changed.field? field frame = some value := by
  obtain ⟨record, found⟩ := mem_iff.mp tracked
  unfold field?
  rw [changes.find, if_pos rfl, found, Option.map_some, Option.map_some, assigned]

end Changes

theorem modifyRecord_satisfies {change : FrameRecord → FrameRecord}
    (place : table.pool.frameAt index = frame) (tracked : frame ∈ table) :
    (table.modifyRecord index change).Satisfies tolerated (table.Changes frame change) := by
  obtain ⟨record, found⟩ := mem_iff.mp tracked
  obtain ⟨_, place', _⟩ := find?_eq_some.mp found
  have here := FramePool.indexOf?_eq_some.mpr ⟨(FramePool.indexOf?_eq_some.mp place').1, place⟩
  have small := lt_size here tracked
  unfold modifyRecord
  rw [record_eq place found, Checked.ok_bind, setEntry_eq small]
  refine ⟨fun other => ?_, Array.size_setIfInBounds, rfl⟩
  rw [find?_set here small]
  split
  · rename_i same
    rw [same, found]
    rfl
  · rfl

section Rest

variable {linked : FrameTable arch}

/-- Nothing but the ring is changed: records, head and hand, and the count of its frames. -/
def Relinks (table linked : FrameTable arch) : Prop :=
  linked = { table with
    records := linked.records
    headIndex := linked.headIndex
    handIndex := linked.handIndex
    queued := linked.queued }

theorem Relinks.trans {middle : FrameTable arch} (first : table.Relinks middle)
    (second : middle.Relinks linked) : table.Relinks linked := by
  unfold Relinks at *
  rw [second, first]

theorem Relinks.pool (relinks : table.Relinks linked) : linked.pool = table.pool := by
  rw [relinks]

theorem Relinks.evictions (relinks : table.Relinks linked) :
    linked.evictions = table.evictions := by
  rw [relinks]

theorem modifyRecord_rest {change : FrameRecord → FrameRecord} :
    (table.modifyRecord index change).Satisfies (fun _ => True) fun changed =>
      changed = { table with records := changed.records } :=
  .bind .any fun _ _ => .bind .any fun _ _ => .pure rfl

theorem modifyRecord_relinks {change : FrameRecord → FrameRecord} :
    (table.modifyRecord index change).Satisfies (fun _ => True) table.Relinks := by
  refine .mono modifyRecord_rest fun changed rest => ?_
  unfold Relinks
  rw [rest]

theorem link_relinks : (table.link index).Satisfies (fun _ => True) table.Relinks := by
  have closes : ∀ joined : FrameTable arch, table.Relinks joined →
      (do
        let linked ← joined.modifyRecord index fun record => { record with referenced := false }
        return { linked with queued := linked.queued + 1 } :
          Checked (FrameTable arch)).Satisfies (fun _ => True) table.Relinks := by
    intro joined first
    refine .bind modifyRecord_relinks fun marked second => .pure ?_
    have relinks := first.trans second
    unfold Relinks at *
    rw [relinks]
  unfold link
  split
  · refine .bind modifyRecord_rest fun alone rest => closes _ ?_
    unfold Relinks
    rw [rest]
  · refine .bind .any fun _ _ => .bind modifyRecord_relinks fun joining first => ?_
    refine .bind modifyRecord_relinks fun after second => ?_
    exact .bind modifyRecord_relinks fun before third => closes _ ((first.trans second).trans third)

theorem unlink_relinks : (table.unlink index).Satisfies (fun _ => True) table.Relinks := by
  have leaves : (if table.queued = 1 then pure { table with headIndex := none, handIndex := none }
      else table.bypass index).Satisfies (fun _ => True) table.Relinks := by
    split
    · exact .pure rfl
    · refine .bind .any fun record _ => .bind modifyRecord_relinks fun joined first => ?_
      refine .bind modifyRecord_relinks fun closed second => .pure ?_
      have relinks := first.trans second
      unfold Relinks at *
      rw [relinks]
  refine .bind leaves fun left relinks => .bind .any fun _ _ => .pure ?_
  unfold Relinks at *
  rw [relinks]

theorem clear_rest : (table.clear index).Satisfies (fun _ => True) fun cleared =>
    cleared = { table with records := cleared.records, resident := cleared.resident } := by
  refine .bind (.bind .any fun _ _ => .pure rfl) ?_
  rintro _ rfl
  exact .bind .any fun _ _ => .pure rfl

end Rest

end FrameTable
end DemandPaging
