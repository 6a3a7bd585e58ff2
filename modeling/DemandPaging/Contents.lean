import DemandPaging.Violation

/-!
Bytes: those of a page, of a device sector, and of buffers of any length. Each
operation is given by the byte it leaves at every position, and the lemmas beside
it read that byte back.
-/

namespace DemandPaging

abbrev sectorSize : Nat := 512

abbrev sectorsPerPage : Nat := pageSize / sectorSize

abbrev Bytes := Array UInt8

abbrev Page := Vector UInt8 pageSize

abbrev Sector := Vector UInt8 sectorSize

namespace Bytes

/-- Puts the first `count` bytes of `source` over those from `start` on. -/
def overwriteFirst (dest : Bytes) (start : Nat) (source : Bytes) (count : Nat) : Bytes :=
  count.fold (fun i _ bytes => bytes.setIfInBounds (start + i) (source.getD i 0)) dest

/-- Puts `source` over the bytes from `start` on; what does not fit is dropped. -/
def overwrite (dest : Bytes) (start : Nat) (source : Bytes) : Bytes :=
  dest.overwriteFirst start source source.size

private theorem size_overwriteFirst (dest : Bytes) (start : Nat) (source : Bytes)
    (count : Nat) : (dest.overwriteFirst start source count).size = dest.size := by
  induction count with
  | zero => rfl
  | succ count ih =>
    unfold overwriteFirst at ih ⊢
    rw [Nat.fold_succ, Array.size_setIfInBounds, ih]

@[simp] theorem size_overwrite (dest : Bytes) (start : Nat) (source : Bytes) :
    (dest.overwrite start source).size = dest.size :=
  size_overwriteFirst dest start source source.size

private theorem getElem?_overwriteFirst (dest : Bytes) (start : Nat) (source : Bytes)
    (count i : Nat) : (dest.overwriteFirst start source count)[i]? =
      if start ≤ i ∧ i - start < count ∧ i < dest.size then some (source.getD (i - start) 0)
      else dest[i]? := by
  induction count with
  | zero => exact (if_neg fun h => Nat.not_lt_zero _ h.2.1).symm
  | succ count ih =>
    have hsize := size_overwriteFirst dest start source count
    unfold overwriteFirst at ih hsize ⊢
    rw [Nat.fold_succ, Array.getElem?_setIfInBounds, hsize]
    by_cases heq : start + count = i
    · subst heq
      by_cases hi : start + count < dest.size
      · rw [if_pos rfl, if_pos hi, if_pos (by omega), Nat.add_sub_cancel_left]
      · rw [if_pos rfl, if_neg hi, if_neg (by omega), Array.getElem?_eq_none (by omega)]
    · rw [if_neg heq, ih]
      by_cases h : start ≤ i ∧ i - start < count ∧ i < dest.size
      · rw [if_pos h, if_pos (by omega)]
      · rw [if_neg h, if_neg (by omega)]

theorem getElem?_overwrite (dest : Bytes) (start : Nat) (source : Bytes) (i : Nat) :
    (dest.overwrite start source)[i]? =
      if start ≤ i ∧ i - start < source.size ∧ i < dest.size then source[i - start]?
      else dest[i]? := by
  unfold overwrite
  rw [getElem?_overwriteFirst]
  by_cases h : start ≤ i ∧ i - start < source.size ∧ i < dest.size
  · rw [if_pos h, if_pos h, Array.getD_eq_getD_getElem?, Array.getElem?_eq_getElem h.2.1]
    rfl
  · rw [if_neg h, if_neg h]

end Bytes

namespace Sector

def zero : Sector :=
  Vector.replicate sectorSize 0

/-- The sector that a buffer holds; a buffer of any other size is refused. -/
def ofBytes (bytes : Bytes) : Checked Sector :=
  if h : bytes.size = sectorSize then .ok ⟨bytes, h⟩ else .error .sectorSizeMismatch

end Sector

namespace Page

def zero : Page :=
  Vector.replicate pageSize 0

/-- The page that a buffer holds; for a buffer of any other size, the violation. -/
def ofBytes (bytes : Bytes) (mismatch : Violation) : Checked Page :=
  if h : bytes.size = pageSize then .ok ⟨bytes, h⟩ else .error mismatch

/-- Puts `source` over the bytes from `start` on; what does not fit is dropped. -/
def overwrite (page : Page) (start : Nat) (source : Bytes) : Page :=
  ⟨Bytes.overwrite page.toArray start source, by simp⟩

theorem getElem?_overwrite (page : Page) (start : Nat) (source : Bytes) {i : Nat}
    (inside : i < pageSize) : (page.overwrite start source)[i]? =
      if start ≤ i ∧ i - start < source.size then source[i - start]? else page[i]? := by
  have small : i < page.toArray.size := by simpa using inside
  rw [← Vector.getElem?_toArray, ← Vector.getElem?_toArray]
  refine (Bytes.getElem?_overwrite page.toArray start source i).trans ?_
  simp only [small, and_true]

def clearFrom (page : Page) (start : Nat) : Page :=
  ⟨⟨page.toList.take start ++ List.replicate (pageSize - start) 0⟩, by
    rw [List.size_toArray, List.length_append, List.length_take, List.length_replicate,
      Vector.length_toList]
    omega⟩

theorem getElem?_clearFrom (page : Page) (start : Nat) {i : Nat} (inside : i < pageSize) :
    (page.clearFrom start)[i]? = if i < start then page[i]? else some 0 := by
  have kept : (page.toList.take start).length = min start pageSize := by
    rw [List.length_take, Vector.length_toList]
  unfold clearFrom
  rw [← Vector.getElem?_toArray, List.getElem?_toArray]
  split
  · rw [List.getElem?_append_left (by omega), List.getElem?_take_of_lt (by omega),
      Vector.getElem?_toList]
  · rw [List.getElem?_append_right (by omega), List.getElem?_replicate, if_pos (by omega)]

/-- The `length` bytes from `start` on, or as many of them as there are. -/
def slice (page : Page) (start length : Nat) : Bytes :=
  page.toArray.extract start (start + length)

theorem size_slice (page : Page) {start length : Nat} (fits : start + length ≤ pageSize) :
    (page.slice start length).size = length := by
  unfold slice
  rw [Array.size_extract, Vector.size_toArray]
  omega

theorem getElem?_slice (page : Page) (start : Nat) {length i : Nat} (small : i < length) :
    (page.slice start length)[i]? = page[start + i]? := by
  unfold slice
  rw [Array.getElem?_extract, ← Vector.getElem?_toArray]
  split
  · rfl
  · rename_i outside
    rw [Array.getElem?_eq_none]
    omega

def sector (page : Page) (index : Fin sectorsPerPage) : Sector :=
  Vector.ofFn fun i => page.get ⟨sectorSize * index.val + i.val, by
    have hindex : index.val < 8 := index.isLt
    have hi : i.val < 512 := i.isLt
    change 512 * index.val + i.val < 4096
    omega⟩

def setSector (page : Page) (index : Fin sectorsPerPage) (sector : Sector) : Page :=
  Vector.ofFn fun i =>
    if i.val / sectorSize = index.val then
      sector.get ⟨i.val % sectorSize, Nat.mod_lt _ (by decide)⟩
    else
      page[i]

end Page
end DemandPaging
