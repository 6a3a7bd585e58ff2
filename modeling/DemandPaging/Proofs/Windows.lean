import Mathlib.Logic.Function.Basic
import DemandPaging.Proofs.Files

/-!
Mappings as views of a file. Each page of a region shows the file through a window. The windows
lie side by side, and reading and writing a page agree on which bytes its window shows, however
long the file is.
-/

namespace DemandPaging

theorem FileChannel.Uncut.writeAt_eq {channel : FileChannel} (uncut : channel.Uncut)
    (offset : Nat) {source : Bytes} (small : source.size ≤ pageSize) :
    channel.writeAt offset source = (min source.size (channel.file.contents.size - offset),
      { channel with file := ⟨channel.file.contents.overwrite offset source⟩ }) := by
  unfold FileChannel.writeAt File.writeAt
  rw [FileChannel.capped_eq uncut.2 small, Array.extract_size]
  rfl

namespace Mapping

def nthPage (mapping : Mapping) (k : Nat) : PageNumber :=
  ⟨mapping.base.value + k⟩

def start (mapping : Mapping) (k : Nat) : Nat :=
  mapping.segment.offset + k * pageSize

/-- How many bytes of a page are to come from the file. -/
def backed (mapping : Mapping) (k : Nat) : Nat :=
  min pageSize (mapping.segment.fileLength - k * pageSize)

def fileBytes (mapping : Mapping) (files : FileStore) : Bytes :=
  (files.get mapping.segment.file).file.contents

/-- A byte of a file of this size shows through a page. -/
def Window (mapping : Mapping) (size k i : Nat) : Prop :=
  mapping.start k ≤ i ∧ i < min (mapping.start k + mapping.backed k) size

instance (mapping : Mapping) (size k i : Nat) : Decidable (mapping.Window size k i) :=
  inferInstanceAs (Decidable (_ ∧ _))

variable {mapping : Mapping} {files : FileStore} {size j k i : Nat}

theorem backed_le (mapping : Mapping) (k : Nat) : mapping.backed k ≤ pageSize :=
  Nat.min_le_left _ _

theorem window_start_add :
    mapping.Window size k (mapping.start k + i) ↔
      i < mapping.backed k ∧ mapping.start k + i < size := by
  unfold Window
  omega

theorem window_disjoint (apart : j ≠ k) (shown : mapping.Window size j i) :
    ¬mapping.Window size k i := by
  unfold Window start backed at *
  rcases Nat.lt_or_gt_of_ne apart with before | before <;> unfold pageSize at * <;> omega

theorem exists_window_iff :
    (∃ k < mapping.pageCount, mapping.Window size k i) ↔ mapping.segment.offset ≤ i ∧
      i < min (mapping.segment.offset + mapping.segment.fileLength) size := by
  unfold Window start backed pageCount pagesFor pageSize
  constructor
  · rintro ⟨k, _, shown⟩
    omega
  · intro inside
    exact ⟨(i - mapping.segment.offset) / 4096, by omega, by omega⟩

theorem contains_nthPage (inside : k < mapping.pageCount) :
    mapping.contains (mapping.nthPage k) = true := by
  unfold contains nthPage
  simp [inside]

theorem fileRange_nthPage
    (fits : mapping.segment.offset + mapping.pageCount * pageSize < wordLimit)
    (inside : k < mapping.pageCount) :
    mapping.fileRange (mapping.nthPage k) = .ok ⟨mapping.start k, mapping.backed k⟩ := by
  have below : mapping.segment.offset + k * pageSize < wordLimit :=
    Nat.lt_of_le_of_lt
      (Nat.add_le_add_left (Nat.mul_le_mul_right pageSize (Nat.le_of_lt inside)) _) fits
  have index : (mapping.nthPage k).value - mapping.base.value = k := Nat.add_sub_cancel_left _ _
  unfold fileRange require Word.add start backed
  rw [if_pos (contains_nthPage inside), Checked.ok_bind, index, Nat.min_comm]
  dsimp only
  rw [if_pos below, Checked.ok_bind]
  rfl

theorem readPage_nthPage
    (fits : mapping.segment.offset + mapping.pageCount * pageSize < wordLimit)
    (uncut : (files.get mapping.segment.file).Uncut) (inside : k < mapping.pageCount)
    (dest : Page) : ∃ contents,
      mapping.readPage files (mapping.nthPage k) dest = .ok contents ∧
      ∀ i < pageSize, contents[i]? =
        if i < mapping.backed k ∧ mapping.start k + i < (mapping.fileBytes files).size then
          (mapping.fileBytes files)[mapping.start k + i]?
        else some 0 := by
  unfold readPage
  rw [fileRange_nthPage fits inside, Checked.ok_bind]
  refine ⟨_, rfl, fun i small => ?_⟩
  dsimp only
  rw [uncut.readAt (mapping.backed_le k), Page.getElem?_clearFrom _ _ small, Array.size_extract,
    Page.getElem?_overwrite _ _ _ small, Array.getElem?_extract, Array.size_extract]
  unfold fileBytes
  by_cases shown : i < mapping.backed k ∧
      mapping.start k + i < (files.get mapping.segment.file).file.contents.size
  · rw [if_pos shown, if_pos (by omega), if_pos (by omega), if_pos (by omega), Nat.sub_zero]
  · rw [if_neg shown, if_neg (by omega)]

theorem writePage_nthPage
    (fits : mapping.segment.offset + mapping.pageCount * pageSize < wordLimit)
    (uncut : (files.get mapping.segment.file).Uncut) (unspared : ¬mapping.Spares)
    (inside : k < mapping.pageCount) (source : Page) : ∃ result after bytes,
      mapping.writePage files (mapping.nthPage k) source = .ok (result, after) ∧
      result = (if 0 < mapping.backed k ∧
          (mapping.fileBytes files).size < mapping.start k + mapping.backed k then
        .error .shortWrite else .ok ()) ∧
      after.get = Function.update files.get mapping.segment.file
        { files.get mapping.segment.file with file := ⟨bytes⟩ } ∧
      bytes.size = (mapping.fileBytes files).size ∧
      ∀ i, bytes[i]? = if mapping.Window (mapping.fileBytes files).size k i then
        source[i - mapping.start k]? else (mapping.fileBytes files)[i]? := by
  have size : (source.slice 0 (mapping.backed k)).size = mapping.backed k :=
    Page.size_slice source (by have := mapping.backed_le k; omega)
  have kept : (!mapping.segment.writable || mapping.segment.static) = false := by
    simpa [Spares] using unspared
  unfold writePage
  rw [kept, if_neg Bool.false_ne_true, fileRange_nthPage fits inside, Checked.ok_bind]
  dsimp only
  by_cases empty : mapping.backed k = 0
  · rw [if_pos empty, if_neg (by omega)]
    refine ⟨_, files, mapping.fileBytes files, rfl, rfl, ?_, rfl, fun i => ?_⟩
    · exact (Function.update_eq_self _ _).symm
    · rw [if_neg]
      unfold Window
      omega
  · have short : min (mapping.backed k) ((mapping.fileBytes files).size - mapping.start k) <
        mapping.backed k ↔ 0 < mapping.backed k ∧
          (mapping.fileBytes files).size < mapping.start k + mapping.backed k := by
      omega
    rw [if_neg empty,
      uncut.writeAt_eq _ (Nat.le_trans (Nat.le_of_eq size) (mapping.backed_le k)), size]
    let bytes := (mapping.fileBytes files).overwrite (mapping.start k)
      (source.slice 0 (mapping.backed k))
    refine ⟨_, files.set mapping.segment.file
      { files.get mapping.segment.file with file := ⟨bytes⟩ }, bytes, ?_, rfl, ?_,
      Bytes.size_overwrite _ _ _, fun i => ?_⟩
    · dsimp only
      change (if min (mapping.backed k) ((mapping.fileBytes files).size - mapping.start k) <
        mapping.backed k then _ else _) = _
      simp only [short]
      split <;> rfl
    · funext id
      rw [FileStore.get_set, Function.update_apply]
    · rw [Bytes.getElem?_overwrite, size]
      by_cases shown : mapping.Window (mapping.fileBytes files).size k i
      · rw [if_pos shown]
        unfold Window at shown
        rw [if_pos (by omega), Page.getElem?_slice source 0 (by omega), Nat.zero_add]
      · rw [if_neg shown, if_neg]
        unfold Window at shown
        omega

/-- A page that is written reads back as far as the file has it. -/
theorem readPage_writePage
    (fits : mapping.segment.offset + mapping.pageCount * pageSize < wordLimit)
    (uncut : (files.get mapping.segment.file).Uncut) (unspared : ¬mapping.Spares)
    (inside : k < mapping.pageCount) {source : Page} {result : Except VmError Unit}
    {after : FileStore}
    (written : mapping.writePage files (mapping.nthPage k) source = .ok (result, after))
    (dest : Page) : ∃ contents,
      mapping.readPage after (mapping.nthPage k) dest = .ok contents ∧
      ∀ i < pageSize, contents[i]? =
        if i < mapping.backed k ∧ mapping.start k + i < (mapping.fileBytes files).size then
          source[i]?
        else some 0 := by
  obtain ⟨_, _, bytes, written', -, stored, size, shows⟩ :=
    writePage_nthPage fits uncut unspared inside source
  cases written.symm.trans written'
  have here : mapping.fileBytes after = bytes := by
    unfold fileBytes
    rw [stored, Function.update_self]
  obtain ⟨contents, read, held⟩ :=
    readPage_nthPage fits ((writePage_uncut written).mpr uncut) inside dest
  refine ⟨contents, read, fun i small => ?_⟩
  rw [held i small, here, size, shows]
  by_cases shown : i < mapping.backed k ∧ mapping.start k + i < (mapping.fileBytes files).size
  · rw [if_pos shown, if_pos (window_start_add.mpr shown), if_pos shown, Nat.add_sub_cancel_left]
  · rw [if_neg shown, if_neg shown]

/-- A page that is written as it was read leaves every file as it is. -/
theorem writePage_readPage
    (fits : mapping.segment.offset + mapping.pageCount * pageSize < wordLimit)
    (uncut : (files.get mapping.segment.file).Uncut) (inside : k < mapping.pageCount)
    {dest contents : Page}
    (read : mapping.readPage files (mapping.nthPage k) dest = .ok contents) :
    ∃ result after, mapping.writePage files (mapping.nthPage k) contents = .ok (result, after) ∧
      after.get = files.get := by
  by_cases spared : mapping.Spares
  · have kept : (!mapping.segment.writable || mapping.segment.static) = true := by
      simpa [Spares] using spared
    refine ⟨.ok (), files, ?_, rfl⟩
    unfold writePage
    exact if_pos kept
  · obtain ⟨_, read', held⟩ := readPage_nthPage fits uncut inside dest
    cases read.symm.trans read'
    obtain ⟨result, after, bytes, written, -, stored, -, shows⟩ :=
      writePage_nthPage fits uncut spared inside contents
    refine ⟨result, after, written, ?_⟩
    have same : bytes = mapping.fileBytes files := by
      refine Array.ext_getElem? fun i => ?_
      rw [shows]
      split
      · rename_i shown
        have place : mapping.start k + (i - mapping.start k) = i := Nat.add_sub_of_le shown.1
        have shown' := shown
        rw [← place, window_start_add] at shown'
        rw [held _ (Nat.lt_of_lt_of_le shown'.1 (mapping.backed_le k)), if_pos shown', place]
      · rfl
    rw [stored, same]
    exact Function.update_eq_self _ _

/-- Reading and writing the pages of a mapping is a view of the file, page by page. A page shows
the bytes in its window and zeros elsewhere; writing it changes just those bytes, and fails if the
file ends before the part that backs the page. The windows of all pages make up the file part. -/
theorem views_file (fits : mapping.segment.offset + mapping.pageCount * pageSize < wordLimit)
    (uncut : (files.get mapping.segment.file).Uncut) :
    (∀ k < mapping.pageCount, ∀ dest, ∃ contents,
      mapping.readPage files (mapping.nthPage k) dest = .ok contents ∧
      ∀ i < pageSize, contents[i]? =
        if i < mapping.backed k ∧ mapping.start k + i < (mapping.fileBytes files).size then
          (mapping.fileBytes files)[mapping.start k + i]?
        else some 0) ∧
    (¬mapping.Spares → ∀ k < mapping.pageCount, ∀ source, ∃ result after bytes,
      mapping.writePage files (mapping.nthPage k) source = .ok (result, after) ∧
      result = (if 0 < mapping.backed k ∧
          (mapping.fileBytes files).size < mapping.start k + mapping.backed k then
        .error .shortWrite else .ok ()) ∧
      after.get = Function.update files.get mapping.segment.file
        { files.get mapping.segment.file with file := ⟨bytes⟩ } ∧
      bytes.size = (mapping.fileBytes files).size ∧
      (∀ i, bytes[i]? = if mapping.Window (mapping.fileBytes files).size k i then
        source[i - mapping.start k]? else (mapping.fileBytes files)[i]?) ∧
      ∀ dest, ∃ contents, mapping.readPage after (mapping.nthPage k) dest = .ok contents ∧
        ∀ i < pageSize, contents[i]? =
          if i < mapping.backed k ∧ mapping.start k + i < (mapping.fileBytes files).size then
            source[i]?
          else some 0) ∧
    (∀ k < mapping.pageCount, ∀ dest contents,
      mapping.readPage files (mapping.nthPage k) dest = .ok contents → ∃ result after,
        mapping.writePage files (mapping.nthPage k) contents = .ok (result, after) ∧
          after.get = files.get) ∧
    (∀ j k, j ≠ k → ∀ i, mapping.Window (mapping.fileBytes files).size j i →
      ¬mapping.Window (mapping.fileBytes files).size k i) ∧
    ∀ i, (∃ k < mapping.pageCount, mapping.Window (mapping.fileBytes files).size k i) ↔
      mapping.segment.offset ≤ i ∧
        i < min (mapping.segment.offset + mapping.segment.fileLength)
          (mapping.fileBytes files).size := by
  refine ⟨fun k inside dest => readPage_nthPage fits uncut inside dest, ?_,
    fun k inside dest contents => writePage_readPage fits uncut inside,
    fun j k apart i => window_disjoint apart, fun i => exists_window_iff⟩
  intro unspared k inside source
  obtain ⟨result, after, bytes, written, ends, stored, size, shows⟩ :=
    writePage_nthPage fits uncut unspared inside source
  exact ⟨result, after, bytes, written, ends, stored, size, shows,
    readPage_writePage fits uncut unspared inside written⟩

def cutShort : Mapping where
  id := ⟨1⟩
  owner := ⟨1⟩
  segment := { file := ⟨0⟩, address := ⟨0x1000⟩, offset := 1, fileLength := 3, zeroLength := 5000 }

/-- The two bytes that the file has are written, the third one is missing. -/
theorem views_file_cutShort : ∃ after bytes,
    cutShort.writePage (.ofList [⟨#[1, 2, 3]⟩]) (cutShort.nthPage 0) (Vector.replicate pageSize 7) =
      .ok (.error .shortWrite, after) ∧
    cutShort.fileBytes after = bytes ∧ bytes[0]? = some 1 ∧ bytes[2]? = some 7 := by
  have fits : cutShort.segment.offset + cutShort.pageCount * pageSize < wordLimit := by decide
  have uncut : ((FileStore.ofList [⟨#[1, 2, 3]⟩]).get cutShort.segment.file).Uncut := by decide
  obtain ⟨-, writes, -⟩ := views_file fits uncut
  have unspared : ¬cutShort.Spares := by simp [Spares, cutShort]
  obtain ⟨result, after, bytes, written, ends, stored, -, shows, -⟩ :=
    writes unspared 0 (by decide) (Vector.replicate pageSize 7)
  refine ⟨after, bytes, ?_, ?_, ?_, ?_⟩
  · rw [written, ends]
    rfl
  · unfold fileBytes
    rw [stored, Function.update_self]
  · rw [shows]
    decide
  · rw [shows, if_pos (by decide), Vector.getElem?_eq_getElem (by decide), Vector.getElem_replicate]

end Mapping
end DemandPaging
