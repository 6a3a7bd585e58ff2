import Std.Data.ExtTreeMap

/-!
The numbers that name pages, frames, processes, swap slots, mappings and files.
Each kind has a type of its own, ordered by value, so that any of them can key a
map and none can stand in for another.
-/

namespace DemandPaging

/-- What a number names. -/
inductive NumberKind where
  | page
  | frame
  | frameIndex
  | process
  | swapSlot
  | mapping
  | file
deriving DecidableEq, Repr

/-- A number that names one thing of its kind. -/
@[ext] structure Number (kind : NumberKind) where
  value : Nat
deriving DecidableEq, Repr

/-- A page of virtual memory, counted from address zero. -/
abbrev PageNumber := Number .page

/-- A frame of physical memory, counted from address zero. -/
abbrev FrameNumber := Number .frame

/-- The place of a frame in its pool, counted from the pool's first frame. -/
abbrev FrameIndex := Number .frameIndex

abbrev ProcessId := Number .process

/-- A page-sized slot of the swap device. -/
abbrev SwapSlot := Number .swapSlot

abbrev MappingId := Number .mapping

abbrev FileId := Number .file

namespace Number

variable {kind : NumberKind}

instance : Ord (Number kind) := ⟨compareOn value⟩

instance : Std.TransOrd (Number kind) :=
  inferInstanceAs (Std.TransCmp (compareOn value))

instance : Std.LawfulEqOrd (Number kind) where
  eq_of_compare {a b} h := by
    have h : compare a.value b.value = .eq := h
    exact Number.ext (Std.LawfulEqCmp.eq_of_compare h)

def text (number : Number kind) : String :=
  match kind with
  | .process => s!"pid {number.value}"
  | .mapping => s!"#{number.value}"
  | _ => toString number.value

/-- Text of a number that also says what it names. -/
def debugText (number : Number kind) : String :=
  match kind with
  | .page => s!"PageNumber({number.value})"
  | .frame => s!"FrameNumber({number.value})"
  | .frameIndex => toString number.value
  | .process => s!"ProcessId({number.value})"
  | .swapSlot => s!"SwapSlot({number.value})"
  | .mapping => s!"MappingId({number.value})"
  | .file => s!"FileId({number.value})"

end Number

/-- A finite map whose keys are numbers of one kind, listed in increasing order. -/
abbrev NumberMap (kind : NumberKind) (β : Type) := Std.ExtTreeMap (Number kind) β

namespace NumberMap

variable {kind : NumberKind} {β : Type}

theorem getElem?_insert (map : NumberMap kind β) (key other : Number kind) (value : β) :
    (map.insert key value)[other]? = if other = key then some value else map[other]? := by
  rw [Std.ExtTreeMap.getElem?_insert]
  by_cases same : other = key
  · subst same
    simp
  · simp [same, Ne.symm same]

theorem getElem?_erase (map : NumberMap kind β) (key other : Number kind) :
    (map.erase key)[other]? = if other = key then none else map[other]? := by
  rw [Std.ExtTreeMap.getElem?_erase]
  by_cases same : other = key
  · subst same
    simp
  · simp [same, Ne.symm same]

theorem getElem?_modify (map : NumberMap kind β) (key other : Number kind) (change : β → β) :
    (map.modify key change)[other]? =
      if other = key then map[other]?.map change else map[other]? := by
  rw [Std.ExtTreeMap.getElem?_modify]
  by_cases same : other = key
  · subst same
    simp
  · simp [same, Ne.symm same]

theorem contains_eq_false {map : NumberMap kind β} {key : Number kind} :
    map.contains key = false ↔ map[key]? = none := by
  rw [← Std.ExtTreeMap.isSome_getElem?_eq_contains, Option.isSome_eq_false_iff,
    Option.isNone_iff_eq_none]

theorem insert_self (map : NumberMap kind β) {key : Number kind} {value : β}
    (found : map[key]? = some value) : map.insert key value = map := by
  apply Std.ExtTreeMap.ext_getElem?
  intro other
  rw [getElem?_insert]
  split
  · rename_i same
    rw [same, found]
  · rfl

theorem insert_insert (map : NumberMap kind β) (key : Number kind) (first last : β) :
    (map.insert key first).insert key last = map.insert key last := by
  apply Std.ExtTreeMap.ext_getElem?
  intro other
  rw [getElem?_insert, getElem?_insert, getElem?_insert]
  split <;> rfl

theorem erase_insert (map : NumberMap kind β) (key : Number kind) (value : β) :
    (map.insert key value).erase key = map.erase key := by
  apply Std.ExtTreeMap.ext_getElem?
  intro other
  rw [getElem?_erase, getElem?_erase, getElem?_insert]
  split <;> rfl

theorem toList_distinct (map : NumberMap kind β) :
    map.toList.Pairwise fun first later => first.1 ≠ later.1 := by
  refine Std.ExtTreeMap.distinct_keys_toList.imp ?_
  rintro first later differs same
  exact differs (by rw [same]; exact Std.ReflCmp.compare_self)

end NumberMap

end DemandPaging
