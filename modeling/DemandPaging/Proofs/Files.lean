import DemandPaging.Mapping
import DemandPaging.Proofs.Outcome

/-!
Pages in files. Reading a page of a mapping takes its bytes from the part of the file behind
it, writing the page puts them back there, and nothing else in any file is touched.
-/

namespace DemandPaging

namespace FileStore

variable (store : FileStore)

theorem get_set (id other : FileId) (channel : FileChannel) :
    (store.set id channel).get other = if other = id then channel else store.get other := by
  unfold get set
  rw [Std.ExtTreeMap.getD_eq_getD_getElem?, NumberMap.getElem?_insert]
  split
  · rfl
  · exact Std.ExtTreeMap.getD_eq_getD_getElem?.symm

end FileStore

namespace FileChannel

variable {channel : FileChannel} {offset : Nat} {source : Bytes}

def Uncut (channel : FileChannel) : Prop :=
  (∀ cap, channel.readCap = some cap → pageSize ≤ cap) ∧
    ∀ cap, channel.writeCap = some cap → pageSize ≤ cap

instance (channel : FileChannel) : Decidable channel.Uncut :=
  decidable_of_iff (channel.readCap.all (fun cap => pageSize ≤ cap) = true ∧
    channel.writeCap.all (fun cap => pageSize ≤ cap) = true) (by simp [Uncut, Option.all_eq_true])

theorem capped_eq {cap : Option Nat} {length : Nat}
    (wide : ∀ limit, cap = some limit → pageSize ≤ limit) (small : length ≤ pageSize) :
    capped cap length = length := by
  unfold capped
  cases cap with
  | none => rfl
  | some limit => exact Nat.min_eq_left (Nat.le_trans small (wide limit rfl))

theorem writeAt_uncut (channel : FileChannel) (offset : Nat) (source : Bytes) :
    (channel.writeAt offset source).2.Uncut ↔ channel.Uncut := Iff.rfl

theorem writeAt_empty (channel : FileChannel) (offset : Nat) :
    (channel.writeAt offset #[]).2 = channel := by
  unfold writeAt File.writeAt
  rw [Array.extract_empty]
  rfl

theorem size_writeAt (channel : FileChannel) (offset : Nat) (source : Bytes) :
    (channel.writeAt offset source).2.file.contents.size = channel.file.contents.size :=
  Bytes.size_overwrite _ _ _

theorem Uncut.writeAt (uncut : channel.Uncut) (small : source.size ≤ pageSize) :
    (channel.writeAt offset source).2.file.contents =
      channel.file.contents.overwrite offset source := by
  change channel.file.contents.overwrite offset
    (source.extract 0 (capped channel.writeCap source.size)) = _
  rw [capped_eq uncut.2 small, Array.extract_size]

theorem Uncut.readAt (uncut : channel.Uncut) {length : Nat} (small : length ≤ pageSize) :
    channel.readAt offset length = channel.file.contents.extract offset (offset + length) := by
  unfold FileChannel.readAt File.readAt
  rw [capped_eq uncut.1 small]

end FileChannel

namespace Page

theorem toList_clearFrom_overwrite (page : Page) {bytes : Bytes} (fits : bytes.size ≤ pageSize) :
    ((page.overwrite 0 bytes).clearFrom bytes.size).toList =
      bytes.toList ++ List.replicate (pageSize - bytes.size) 0 := by
  change (page.overwrite 0 bytes).toList.take bytes.size ++ _ = _
  congr 1
  refine List.ext_getElem? fun i => ?_
  rw [List.getElem?_take]
  split
  · rename_i small
    rw [Vector.getElem?_toList, getElem?_overwrite _ _ _ (Nat.lt_of_lt_of_le small fits),
      if_pos ⟨Nat.zero_le i, small⟩, Nat.sub_zero, Array.getElem?_toList]
  · rename_i large
    rw [Array.getElem?_toList, Array.getElem?_eq_none (Nat.not_lt.mp large)]

end Page

namespace Mapping

variable {mapping : Mapping} {page : PageNumber} {violation : Violation} {files after : FileStore}
  {source : Page} {result : Except VmError Unit}

/-- Whether changed pages are kept from the file: the mapping is read-only or static. -/
def Spares (mapping : Mapping) : Prop :=
  mapping.segment.writable = false ∨ mapping.segment.static = true

theorem fileRange_eq_ok {range : FileRange} (found : mapping.fileRange page = .ok range) :
    mapping.contains page = true ∧
      range.offset = mapping.segment.offset + (page.value - mapping.base.value) * pageSize ∧
        range.length = min (mapping.segment.fileLength -
          (page.value - mapping.base.value) * pageSize) pageSize := by
  unfold fileRange require Word.add at found
  split at found
  · rename_i inside
    rw [Checked.ok_bind] at found
    dsimp only at found
    split at found <;> cases found
    exact ⟨inside, rfl, rfl⟩
  · cases found

theorem wordLimit_le_of_fileRange (failed : mapping.fileRange page = .error violation)
    (inside : mapping.contains page = true) :
    wordLimit ≤ mapping.segment.offset + (page.value - mapping.base.value) * pageSize := by
  unfold fileRange require Word.add at failed
  rw [if_pos inside, Checked.ok_bind] at failed
  dsimp only at failed
  split at failed
  · cases failed
  · omega

theorem evictsToFile_eq_error (failed : mapping.evictsToFile page = .error violation) :
    mapping.fileRange page = .error violation := by
  unfold evictsToFile at failed
  split at failed
  · cases failed
  · split at failed
    · cases failed
    · cases found : mapping.fileRange page with
      | error other =>
          rw [found, Checked.error_bind] at failed
          cases failed
          rfl
      | ok range =>
          rw [found] at failed
          cases failed

theorem readPage_eq_error {dest : Page}
    (failed : mapping.readPage files page dest = .error violation) :
    mapping.fileRange page = .error violation := by
  unfold readPage at failed
  cases found : mapping.fileRange page with
  | error other =>
      rw [found, Checked.error_bind] at failed
      cases failed
      rfl
  | ok range =>
      rw [found] at failed
      cases failed

theorem writePage_eq_error {source : Page}
    (failed : mapping.writePage files page source = .error violation) :
    mapping.fileRange page = .error violation := by
  unfold writePage at failed
  split at failed
  · cases failed
  · cases found : mapping.fileRange page with
    | error other =>
        rw [found, Checked.error_bind] at failed
        cases failed
        rfl
    | ok range =>
        rw [found, Checked.ok_bind] at failed
        split at failed
        · cases failed
        · dsimp only at failed
          split at failed <;> cases failed

theorem readPage_dest {dest contents : Page}
    (read : mapping.readPage files page dest = .ok contents)
    (other : Page) : mapping.readPage files page other = .ok contents := by
  unfold readPage at read ⊢
  cases found : mapping.fileRange page with
  | error violation =>
      rw [found] at read
      cases read
  | ok range =>
      rw [found, Checked.ok_bind] at read
      rw [Checked.ok_bind, ← read]
      refine congrArg Except.ok (Vector.ext fun i inside => ?_)
      rw [← Option.some_inj, ← Vector.getElem?_eq_getElem, ← Vector.getElem?_eq_getElem,
        Page.getElem?_clearFrom _ _ inside, Page.getElem?_clearFrom _ _ inside,
        Page.getElem?_overwrite _ _ _ inside, Page.getElem?_overwrite _ _ _ inside]
      split
      · rename_i small
        rw [if_pos ⟨Nat.zero_le i, small⟩, if_pos ⟨Nat.zero_le i, small⟩]
      · rfl

def bytesRead (mapping : Mapping) (files : FileStore) (range : FileRange) : Bytes :=
  (files.get mapping.segment.file).readAt range.offset range.length

theorem size_bytesRead_le (mapping : Mapping) (files : FileStore) (range : FileRange) :
    (mapping.bytesRead files range).size ≤ range.length := by
  unfold bytesRead FileChannel.readAt File.readAt FileChannel.capped
  rw [Array.size_extract]
  split <;> omega

/-- A page that is read consists of the bytes the file gives, and of zeros. -/
theorem readPage_eq_ok {dest contents : Page}
    (read : mapping.readPage files page dest = .ok contents) :
    ∃ range, mapping.fileRange page = .ok range ∧ contents.toList =
      (mapping.bytesRead files range).toList ++
        List.replicate (pageSize - (mapping.bytesRead files range).size) 0 := by
  unfold readPage at read
  cases found : mapping.fileRange page with
  | error violation =>
      rw [found] at read
      cases read
  | ok range =>
      rw [found, Checked.ok_bind] at read
      obtain ⟨_, _, length⟩ := fileRange_eq_ok found
      refine ⟨range, rfl, ?_⟩
      rw [← Except.ok.inj read]
      have fits : (mapping.bytesRead files range).size ≤ pageSize := by
        have short := mapping.size_bytesRead_le files range
        omega
      exact Page.toList_clearFrom_overwrite dest fits

def bytePage (mapping : Mapping) (index : Nat) : PageNumber :=
  ⟨mapping.base.value + index / pageSize⟩

/-- A page is either kept from the file, or written to the part of the file behind it. -/
theorem writePage_eq_ok (written : mapping.writePage files page source = .ok (result, after)) :
    (mapping.Spares ∧ after = files) ∨
    (¬mapping.Spares ∧ (∃ range, mapping.fileRange page = .ok range ∧
      after.get mapping.segment.file = ((files.get mapping.segment.file).writeAt range.offset
        (source.slice 0 range.length)).2) ∧
      ∀ file, file ≠ mapping.segment.file → after.get file = files.get file) := by
  unfold writePage at written
  split at written
  · rename_i spared
    cases written
    refine .inl ⟨?_, rfl⟩
    simpa [Spares] using spared
  · rename_i spared
    have written' : ¬mapping.Spares := by simpa [Spares] using spared
    cases found : mapping.fileRange page with
    | error violation =>
        rw [found] at written
        cases written
    | ok range =>
        rw [found, Checked.ok_bind] at written
        split at written
        · rename_i empty
          cases written
          refine .inr ⟨written', ⟨range, rfl, ?_⟩, fun _ _ => rfl⟩
          have nothing : source.slice 0 range.length = #[] := by
            rw [empty]
            simp [Page.slice]
          rw [nothing, FileChannel.writeAt_empty]
        · have stored : after = files.set mapping.segment.file
              ((files.get mapping.segment.file).writeAt range.offset
                (source.slice 0 range.length)).2 := by
            dsimp only at written
            split at written <;> cases written <;> rfl
          rw [stored]
          refine .inr ⟨written', ⟨range, rfl, ?_⟩, fun file apart => ?_⟩
          · rw [FileStore.get_set, if_pos rfl]
          · rw [FileStore.get_set, if_neg apart]

theorem writePage_get (written : mapping.writePage files page source = .ok (result, after))
    {file : FileId} (apart : file ≠ mapping.segment.file) : after.get file = files.get file := by
  obtain ⟨_, rfl⟩ | ⟨_, _, others⟩ := writePage_eq_ok written
  · rfl
  · exact others file apart

theorem writePage_uncut (written : mapping.writePage files page source = .ok (result, after)) :
    (after.get mapping.segment.file).Uncut ↔ (files.get mapping.segment.file).Uncut := by
  obtain ⟨_, rfl⟩ | ⟨_, ⟨range, _, stored⟩, _⟩ := writePage_eq_ok written
  · exact Iff.rfl
  · rw [stored]
    exact FileChannel.writeAt_uncut _ _ _

theorem size_writePage (written : mapping.writePage files page source = .ok (result, after)) :
    (after.get mapping.segment.file).file.contents.size =
      (files.get mapping.segment.file).file.contents.size := by
  obtain ⟨_, rfl⟩ | ⟨_, ⟨range, _, stored⟩, _⟩ := writePage_eq_ok written
  · rfl
  · rw [stored]
    exact FileChannel.size_writeAt _ _ _

theorem getElem?_writePage (written : mapping.writePage files page source = .ok (result, after))
    (unspared : ¬mapping.Spares) (uncut : (files.get mapping.segment.file).Uncut) :
    ∃ range, mapping.fileRange page = .ok range ∧ ∀ i,
      (after.get mapping.segment.file).file.contents[i]? =
        if range.offset ≤ i ∧ i - range.offset < range.length ∧
            i < (files.get mapping.segment.file).file.contents.size then source[i - range.offset]?
        else (files.get mapping.segment.file).file.contents[i]? := by
  obtain ⟨spared, _⟩ | ⟨_, ⟨range, found, stored⟩, _⟩ := writePage_eq_ok written
  · exact absurd spared unspared
  · obtain ⟨_, _, length⟩ := fileRange_eq_ok found
    have fits : 0 + range.length ≤ pageSize := by omega
    have size : (source.slice 0 range.length).size = range.length := Page.size_slice source fits
    refine ⟨range, found, fun i => ?_⟩
    rw [stored, uncut.writeAt (by omega), Bytes.getElem?_overwrite, size]
    split
    · rename_i within
      rw [Page.getElem?_slice source 0 within.2.1, Nat.zero_add]
    · rfl

theorem writePage_own (written : mapping.writePage files page source = .ok (result, after))
    (unspared : ¬mapping.Spares) (uncut : (files.get mapping.segment.file).Uncut) {index : Nat}
    (small : index < mapping.segment.fileLength) (here : mapping.bytePage index = page)
    (inside : mapping.segment.offset + index <
      (files.get mapping.segment.file).file.contents.size) :
    (after.get mapping.segment.file).file.contents[mapping.segment.offset + index]? =
      source[index % pageSize]? := by
  obtain ⟨range, found, bytes⟩ := getElem?_writePage written unspared uncut
  obtain ⟨_, offset, length⟩ := fileRange_eq_ok found
  have start : page.value - mapping.base.value = index / pageSize := by
    rw [← here]
    exact Nat.add_sub_cancel_left _ _
  rw [start] at offset length
  unfold pageSize at offset length ⊢
  rw [bytes, if_pos (by omega)]
  congr 1
  omega

theorem writePage_other (written : mapping.writePage files page source = .ok (result, after))
    (unspared : ¬mapping.Spares) (uncut : (files.get mapping.segment.file).Uncut) {i : Nat}
    (elsewhere : ∀ index, index < mapping.segment.fileLength → mapping.bytePage index = page →
      i ≠ mapping.segment.offset + index) :
    (after.get mapping.segment.file).file.contents[i]? =
      (files.get mapping.segment.file).file.contents[i]? := by
  obtain ⟨range, found, bytes⟩ := getElem?_writePage written unspared uncut
  obtain ⟨inside, offset, length⟩ := fileRange_eq_ok found
  rw [bytes, if_neg]
  rintro ⟨above, small, _⟩
  unfold contains at inside
  simp only [Bool.and_eq_true, decide_eq_true_eq] at inside
  have index := elsewhere (i - mapping.segment.offset)
  unfold bytePage at index
  simp only [Number.ext_iff, pageSize] at index offset length
  omega

theorem getElem?_readPage {dest contents : Page}
    (read : mapping.readPage files page dest = .ok contents)
    (uncut : (files.get mapping.segment.file).Uncut) {index : Nat}
    (small : index < mapping.segment.fileLength) (here : mapping.bytePage index = page)
    (inside : mapping.segment.offset + index <
      (files.get mapping.segment.file).file.contents.size) :
    contents[index % pageSize]? =
      (files.get mapping.segment.file).file.contents[mapping.segment.offset + index]? := by
  unfold readPage at read
  cases found : mapping.fileRange page with
  | error violation =>
      rw [found] at read
      cases read
  | ok range =>
      rw [found, Checked.ok_bind] at read
      obtain ⟨_, offset, length⟩ := fileRange_eq_ok found
      have start : page.value - mapping.base.value = index / pageSize := by
        rw [← here]
        exact Nat.add_sub_cancel_left _ _
      have bound : index % pageSize < pageSize := Nat.mod_lt _ (by decide)
      rw [← Except.ok.inj read, uncut.readAt (by omega)]
      rw [start] at offset length
      have taken : index % pageSize < ((files.get mapping.segment.file).file.contents.extract
          range.offset (range.offset + range.length)).size := by
        rw [Array.size_extract]
        unfold pageSize at offset length ⊢
        omega
      rw [Page.getElem?_clearFrom _ _ bound, if_pos taken, Page.getElem?_overwrite _ _ _ bound,
        if_pos ⟨Nat.zero_le _, taken⟩, Array.getElem?_extract, if_pos]
      · congr 1
        unfold pageSize at offset ⊢
        omega
      · rw [Array.size_extract] at taken
        omega

theorem evictsToFile_ne_false {index : Nat} (unspared : ¬mapping.Spares)
    (small : index < mapping.segment.fileLength) (here : mapping.bytePage index = page) :
    mapping.evictsToFile page ≠ .ok false := by
  intro kept
  obtain ⟨writable, shared⟩ : mapping.segment.writable = true ∧ mapping.segment.static = false := by
    simpa [Spares] using unspared
  unfold evictsToFile at kept
  simp only [writable, shared] at kept
  cases found : mapping.fileRange page with
  | error violation =>
      rw [found] at kept
      cases kept
  | ok range =>
      rw [found] at kept
      obtain ⟨_, _, length⟩ := fileRange_eq_ok found
      have start : page.value - mapping.base.value = index / pageSize := by
        rw [← here]
        exact Nat.add_sub_cancel_left _ _
      rw [start] at length
      have empty : decide (0 < range.length) = false := Except.ok.inj kept
      rw [decide_eq_false_iff_not] at empty
      unfold pageSize at length
      omega

end Mapping
end DemandPaging
