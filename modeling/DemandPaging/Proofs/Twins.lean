import DemandPaging.AddressSpace
import DemandPaging.Proofs.Alike
import DemandPaging.Proofs.Files
import DemandPaging.Proofs.Frames

/-!
Stores that differ in what they hold only. Twin frame tables and twin swap tables agree in
all but the bytes in frames and on the disk, and twin files in all but the bytes of files
that are hidden. No store decides anything by the bytes in it, so twins stay twins.
-/

namespace DemandPaging

variable {arch : Architecture} {hidden : FileId → Prop}

/-- Equal answers, with whatever else relates the states. -/
def SameAnswer {α σ τ : Type} (related : σ → τ → Prop) (left : α × σ) (right : α × τ) : Prop :=
  left.1 = right.1 ∧ related left.2 right.2

namespace FrameTable

variable {table other : FrameTable arch} {frame : FrameNumber}

/-- The table with these contents in its frames. -/
def holding (table : FrameTable arch) (contents : NumberMap .frame Page) : FrameTable arch :=
  { table with pool := { table.pool with contents } }

/-- The tables agree in all but the contents of frames. -/
def Twins (table other : FrameTable arch) : Prop :=
  ∃ contents, other = table.holding contents

namespace Twins

theorem refl (table : FrameTable arch) : table.Twins table :=
  ⟨table.pool.contents, rfl⟩

theorem entry (twins : table.Twins other) (index : FrameIndex) :
    other.entry index = table.entry index := by
  obtain ⟨contents, rfl⟩ := twins
  rfl

theorem record (twins : table.Twins other) (index : FrameIndex) :
    other.record index = table.record index := by
  obtain ⟨contents, rfl⟩ := twins
  rfl

theorem queued (twins : table.Twins other) : other.queued = table.queued := by
  obtain ⟨contents, rfl⟩ := twins
  rfl

theorem frameAt (twins : table.Twins other) : other.pool.frameAt = table.pool.frameAt := by
  obtain ⟨contents, rfl⟩ := twins
  rfl

theorem indexOf? (twins : table.Twins other) : other.pool.indexOf? = table.pool.indexOf? := by
  obtain ⟨contents, rfl⟩ := twins
  rfl

theorem indexOf (twins : table.Twins other) : other.pool.indexOf = table.pool.indexOf := by
  obtain ⟨contents, rfl⟩ := twins
  rfl

theorem setEntry (twins : table.Twins other) (index : FrameIndex) (entry : Option FrameRecord) :
    (table.setEntry index entry).Alike Twins (other.setEntry index entry) := by
  obtain ⟨contents, rfl⟩ := twins
  exact .bind .require fun _ _ _ => .pure ⟨contents, rfl⟩

theorem modifyRecord (twins : table.Twins other) (index : FrameIndex)
    (change : FrameRecord → FrameRecord) :
    (table.modifyRecord index change).Alike Twins (other.modifyRecord index change) := by
  unfold FrameTable.modifyRecord
  rw [twins.record]
  refine .bind (.refl (table.record index)) ?_
  rintro record _ rfl
  exact twins.setEntry index _

theorem link (twins : table.Twins other) (index : FrameIndex) :
    (table.link index).Alike Twins (other.link index) := by
  have closes : ∀ left right : FrameTable arch, left.Twins right →
      (do
        let linked ← left.modifyRecord index fun record => { record with referenced := false }
        return { linked with queued := linked.queued + 1 }).Alike Twins (do
        let linked ← right.modifyRecord index fun record => { record with referenced := false }
        return { linked with queued := linked.queued + 1 }) := by
    intro left right twins
    refine .bind (twins.modifyRecord index _) ?_
    rintro linked _ ⟨contents, rfl⟩
    exact .pure ⟨contents, rfl⟩
  have head : other.headIndex = table.headIndex := by
    obtain ⟨contents, rfl⟩ := twins
    rfl
  unfold FrameTable.link
  rw [head]
  cases table.headIndex with
  | none =>
      refine .bind (twins.modifyRecord index _) ?_
      rintro linked _ ⟨contents, rfl⟩
      exact closes _ _ ⟨contents, rfl⟩
  | some head =>
      dsimp only
      rw [twins.record]
      refine .bind (.refl (table.record head)) ?_
      rintro record _ rfl
      refine .bind (twins.modifyRecord index _) fun _ _ twins => ?_
      refine .bind (twins.modifyRecord record.prev _) fun _ _ twins => ?_
      exact .bind (twins.modifyRecord head _) closes

theorem unlink (twins : table.Twins other) (index : FrameIndex) :
    (table.unlink index).Alike Twins (other.unlink index) := by
  have bypasses : (table.bypass index).Alike Twins (other.bypass index) := by
    unfold bypass
    rw [twins.record]
    refine .bind (.refl (table.record index)) ?_
    rintro record _ rfl
    refine .bind (twins.modifyRecord record.prev _) fun _ _ twins => ?_
    refine .bind (twins.modifyRecord record.next _) ?_
    rintro unlinked _ ⟨contents, rfl⟩
    exact .pure ⟨contents, rfl⟩
  have leaves : (if table.queued = 1 then
        pure { table with headIndex := none, handIndex := none } else table.bypass index).Alike Twins
      (if other.queued = 1 then
        pure { other with headIndex := none, handIndex := none } else other.bypass index) := by
    rw [twins.queued]
    split
    · obtain ⟨contents, rfl⟩ := twins
      exact .pure ⟨contents, rfl⟩
    · exact bypasses
  refine .bind leaves ?_
  rintro left _ ⟨contents, rfl⟩
  refine .bind (.refl (Word.sub left.queued 1)) ?_
  rintro queued _ rfl
  exact .pure ⟨contents, rfl⟩

theorem clear (twins : table.Twins other) (index : FrameIndex) :
    (table.clear index).Alike Twins (other.clear index) := by
  refine .bind (twins.setEntry index none) ?_
  rintro left _ ⟨contents, rfl⟩
  refine .bind (.refl (Word.sub left.resident 1)) ?_
  rintro resident _ rfl
  exact .pure ⟨contents, rfl⟩

theorem drop (twins : table.Twins other) (index : FrameIndex) :
    (table.drop index).Alike Twins (other.drop index) :=
  .bind (twins.unlink index) fun _ _ twins => twins.clear index

theorem markNotReferenced (twins : table.Twins other) (frame : FrameNumber) :
    (table.markNotReferenced frame).Alike (SameAnswer Twins) (other.markNotReferenced frame) := by
  unfold FrameTable.markNotReferenced
  rw [twins.indexOf?]
  cases table.pool.indexOf? frame with
  | none => exact .pure ⟨rfl, twins⟩
  | some index =>
      dsimp only
      rw [twins.entry]
      refine .bind (.refl (table.entry index)) ?_
      rintro entry _ rfl
      cases entry with
      | none => exact .pure ⟨rfl, twins⟩
      | some record =>
          dsimp only
          split
          · exact .bind (twins.link index) fun _ _ twins => .pure ⟨rfl, twins⟩
          · exact .pure ⟨rfl, twins⟩

theorem deallocate (twins : table.Twins other) (frame : FrameNumber) :
    (table.pool.deallocate frame).Alike (fun pool last =>
      ({ table with pool } : FrameTable arch).Twins { other with pool := last })
      (other.pool.deallocate frame) := by
  obtain ⟨contents, rfl⟩ := twins
  refine .bind .require fun _ _ _ => .bind .require fun _ _ _ => ?_
  exact .pure ⟨contents, rfl⟩

theorem release (twins : table.Twins other) (frame : FrameNumber) :
    (table.release frame).Alike Twins (other.release frame) := by
  unfold FrameTable.release
  rw [twins.indexOf]
  refine .bind (.refl (table.pool.indexOf frame)) ?_
  rintro index _ rfl
  rw [twins.entry]
  refine .bind (.refl (table.entry index)) ?_
  rintro entry _ rfl
  cases entry with
  | none => exact .error _
  | some record =>
      have unlinks : (if record.referenced then pure table else table.unlink index).Alike Twins
          (if record.referenced then pure other else other.unlink index) := by
        split
        · exact .pure twins
        · exact twins.unlink index
      refine .bind unlinks fun _ _ twins => .bind (twins.clear index) fun _ _ twins => ?_
      exact .bind (twins.deallocate frame) fun _ _ => .pure

theorem reach (twins : table.Twins other) (frame : FrameNumber) :
    other.pool.reach frame = table.pool.reach frame := by
  obtain ⟨contents, rfl⟩ := twins
  rfl

theorem bytes (twins : table.Twins other) (frame : FrameNumber) :
    (table.bytes frame).Alike
      (fun page last => page = table.pool.page frame ∧ last = other.pool.page frame)
      (other.bytes frame) := by
  unfold FrameTable.bytes FramePool.bytes
  rw [twins.reach]
  exact .bind (.refl _) fun _ _ _ => .pure ⟨rfl, rfl⟩

theorem setBytes (twins : table.Twins other) (frame : FrameNumber) (page last : Page) :
    (table.setBytes frame page).Alike Twins (other.setBytes frame last) := by
  unfold FrameTable.setBytes FramePool.setBytes
  rw [twins.reach]
  simp only [bind_assoc, pure_bind]
  refine .bind (.refl _) fun _ _ _ => ?_
  obtain ⟨contents, rfl⟩ := twins
  exact .pure ⟨_, rfl⟩

theorem write (twins : table.Twins other) (frame : FrameNumber) (start : Nat)
    {source last : Bytes} (size : last.size = source.size) :
    (table.write frame start source).Alike Twins (other.write frame start last) := by
  unfold FrameTable.write FramePool.write
  simp only [bind_assoc, size]
  refine .bind (twins.bytes frame) fun page page' _ => ?_
  refine .bind (.refl _) ?_
  rintro stop _ rfl
  refine .bind .require fun _ _ _ => ?_
  exact twins.setBytes frame _ _

theorem read (twins : table.Twins other) (frame : FrameNumber) (start length : Nat) :
    (table.read frame start length).Alike
      (fun bytes last => bytes = (table.pool.page frame).slice start length ∧
        last = (other.pool.page frame).slice start length)
      (other.read frame start length) := by
  unfold FrameTable.read FramePool.read
  refine .bind (twins.bytes frame) ?_
  rintro _ _ ⟨rfl, rfl⟩
  refine .bind (.refl _) ?_
  rintro stop _ rfl
  exact .bind .require fun _ _ _ => .pure ⟨rfl, rfl⟩

theorem track (twins : table.Twins other) (frame : FrameNumber) (request : FrameRequest)
    (owner : ProcessId) (page : PageNumber) :
    (table.track frame request owner page).Alike Twins (other.track frame request owner page) := by
  have clears : (if request.zeroed then table.setBytes frame Page.zero else pure table).Alike Twins
      (if request.zeroed then other.setBytes frame Page.zero else pure other) := by
    split
    · exact twins.setBytes frame _ _
    · exact .pure twins
  unfold FrameTable.track
  refine .bind clears fun left right twins => ?_
  rw [twins.indexOf]
  refine .bind (.refl (left.pool.indexOf frame)) ?_
  rintro index _ rfl
  rw [twins.entry]
  refine .bind (.refl (left.entry index)) ?_
  rintro entry _ rfl
  refine .bind .require fun _ _ _ => .bind (twins.setEntry index _) ?_
  rintro entered _ ⟨contents, rfl⟩
  exact .pure ⟨contents, rfl⟩

end Twins
end FrameTable

namespace SwapDevice

variable {device other : SwapDevice}

/-- The devices agree in all but what is on the disk. -/
def Twins (device other : SwapDevice) : Prop :=
  ∃ written, other = { device with disk := { device.disk with written } }

theorem write_eq (device : SwapDevice) (sector : Nat) (data : Sector) :
    device.write sector data =
      if device.failingWrites.contains sector then .error .device
      else if sector < device.disk.size then
        .ok { device with
          disk := { device.disk with written := device.disk.written.insert sector data } }
      else .error (.outOfRange sector) := by
  unfold SwapDevice.write Disk.write
  split
  · rfl
  · split <;> rfl

theorem Twins.writeSectors (twins : device.Twins other) (first : Nat) (page last : Page)
    (indices : List (Fin sectorsPerPage)) :
    SameAnswer Twins (device.writeSectors first page indices)
      (other.writeSectors first last indices) := by
  induction indices generalizing device other with
  | nil => exact ⟨rfl, twins⟩
  | cons index rest ih =>
      obtain ⟨written, rfl⟩ := twins
      unfold SwapDevice.writeSectors
      simp only [write_eq]
      by_cases failing : device.failingWrites.contains (first + index.val) = true
      · simp only [failing, if_true]
        exact ⟨rfl, written, rfl⟩
      · by_cases inside : first + index.val < device.disk.size
        · simp only [failing, inside, if_true]
          exact ih ⟨_, rfl⟩
        · simp only [failing, if_false, inside]
          exact ⟨rfl, written, rfl⟩

theorem Twins.readSectors (twins : device.Twins other) (first : Nat) (page last : Page)
    (indices : List (Fin sectorsPerPage)) :
    (device.readSectors first page indices).1 = (other.readSectors first last indices).1 := by
  induction indices generalizing page last with
  | nil => rfl
  | cons index rest ih =>
      obtain ⟨written, rfl⟩ := twins
      unfold SwapDevice.readSectors SwapDevice.read Disk.read
      by_cases failing : device.failingReads.contains (first + index.val) = true
      · simp only [failing, if_true]
      · by_cases inside : first + index.val < device.disk.size
        · simp only [failing, inside, if_true]
          exact ih _ _
        · simp only [failing, if_false, inside]
          rfl

end SwapDevice

namespace SwapTable

variable {swap other : SwapTable}

/-- The tables agree in all but what is on the disk. -/
structure Twins (swap other : SwapTable) : Prop where
  slots : other.slots = swap.slots
  device : swap.device.Twins other.device

namespace Twins

theorem refl (swap : SwapTable) : swap.Twins swap :=
  ⟨rfl, swap.device.disk.written, rfl⟩

/-- Whether a page can be stored, and where, does not depend on what is in it. -/
theorem store (twins : swap.Twins other) (contents last : Page) :
    (swap.store contents).Alike (SameAnswer Twins) (other.store last) := by
  unfold SwapTable.store
  rw [twins.slots]
  refine .bind (.lift (.refl swap.slots.allocate)) ?_
  rintro answer _ rfl
  cases answer with
  | none => exact .pure ⟨rfl, twins⟩
  | some allocation =>
      obtain ⟨slot, taken⟩ := allocation
      dsimp only
      refine .bind (.lift (.refl (firstSector slot))) ?_
      rintro first _ rfl
      have written := twins.device.writeSectors first contents last (List.finRange sectorsPerPage)
      unfold SwapDevice.writePage
      generalize swap.device.writeSectors first contents _ = write at written ⊢
      generalize other.device.writeSectors first last _ = again at written ⊢
      obtain ⟨result, device⟩ := write
      obtain ⟨_, device'⟩ := again
      obtain ⟨rfl, devices⟩ := written
      cases result with
      | error cause =>
          refine .bind (.lift (.refl (taken.release slot))) ?_
          rintro slots _ rfl
          exact .pure ⟨rfl, rfl, devices⟩
      | ok _ => exact .bind .log fun _ _ _ => .pure ⟨rfl, rfl, devices⟩

theorem load (twins : swap.Twins other) (slot : SwapSlot) (dest last : Page) :
    (swap.load slot dest).Alike (SameAnswer fun left right => left.2.Twins right.2)
      (other.load slot last) := by
  unfold SwapTable.load SwapTable.isAllocated
  rw [twins.slots]
  refine .bind (.lift .require) fun _ _ _ => ?_
  refine .bind (.lift (.refl (firstSector slot))) ?_
  rintro first _ rfl
  have same := twins.device.readSectors first dest last (List.finRange sectorsPerPage)
  unfold SwapDevice.readPage
  generalize swap.device.readSectors first dest _ = read at same ⊢
  generalize other.device.readSectors first last _ = again at same ⊢
  obtain ⟨result, filled⟩ := read
  obtain ⟨_, filled'⟩ := again
  obtain rfl := same
  cases result with
  | error cause => exact .pure ⟨rfl, twins⟩
  | ok _ =>
      refine .bind (.lift (.refl (swap.slots.release slot))) ?_
      rintro slots _ rfl
      exact .bind .log fun _ _ _ => .pure ⟨rfl, rfl, twins.device⟩

theorem release (twins : swap.Twins other) (slot : SwapSlot) :
    (swap.release slot).Alike Twins (other.release slot) := by
  unfold SwapTable.release
  rw [twins.slots]
  refine .bind (.refl (swap.slots.release slot)) ?_
  rintro slots _ rfl
  exact .pure ⟨rfl, twins.device⟩

theorem setFailing (twins : swap.Twins other) (reads writes : List Nat) :
    (swap.setFailing reads writes).Twins (other.setFailing reads writes) := by
  obtain ⟨slots, written, device⟩ := twins
  refine ⟨slots, written, ?_⟩
  unfold SwapTable.setFailing
  rw [device]

end Twins
end SwapTable

/-- The channels have the same caps and lead to files of the same size. -/
structure FileChannel.Twins (channel other : FileChannel) : Prop where
  readCap : other.readCap = channel.readCap
  writeCap : other.writeCap = channel.writeCap
  size : other.file.size = channel.file.size

theorem FileChannel.Twins.writeAt {channel other : FileChannel} (twins : channel.Twins other)
    (offset : Nat) {source last : Bytes} (size : last.size = source.size) :
    SameAnswer Twins (channel.writeAt offset source) (other.writeAt offset last) := by
  unfold FileChannel.writeAt File.writeAt
  refine ⟨?_, twins.readCap, twins.writeCap, ?_⟩
  · dsimp only
    rw [← twins.size, ← twins.writeCap, Array.size_extract, Array.size_extract, size]
  · have sizes := twins.size
    unfold File.size at sizes ⊢
    dsimp only
    rw [Bytes.size_overwrite, Bytes.size_overwrite, sizes]

namespace FileStore

variable {files other : FileStore}

/-- The files have the same sizes and caps, and the same contents unless they are hidden. -/
structure Twins (hidden : FileId → Prop) (files other : FileStore) : Prop where
  channel : ∀ file, (files.get file).Twins (other.get file)
  same : ∀ file, ¬hidden file → other.get file = files.get file

namespace Twins

theorem refl (files : FileStore) : files.Twins hidden files :=
  ⟨fun _ => ⟨rfl, rfl, rfl⟩, fun _ _ => rfl⟩

theorem set (twins : files.Twins hidden other) (file : FileId) {channel last : FileChannel}
    (channels : channel.Twins last) (same : ¬hidden file → last = channel) :
    (files.set file channel).Twins hidden (other.set file last) := by
  refine ⟨fun another => ?_, fun another shown => ?_⟩
  · rw [get_set, get_set]
    split
    · exact channels
    · exact twins.channel another
  · rw [get_set, get_set]
    split
    · rename_i here
      exact same (here ▸ shown)
    · exact twins.same another shown

theorem writePage (twins : files.Twins hidden other) (mapping : Mapping) (page : PageNumber)
    {source last : Page} (same : ¬hidden mapping.segment.file → last = source) :
    (mapping.writePage files page source).Alike (SameAnswer (Twins hidden))
      (mapping.writePage other page last) := by
  unfold Mapping.writePage
  split
  · exact .pure ⟨rfl, twins⟩
  · refine .bind (.refl (mapping.fileRange page)) ?_
    rintro range _ rfl
    split
    · exact .pure ⟨rfl, twins⟩
    · have sizes : (last.slice 0 range.length).size = (source.slice 0 range.length).size := by
        unfold Page.slice
        rw [Array.size_extract, Array.size_extract, Vector.size_toArray, Vector.size_toArray]
      obtain ⟨count, channels⟩ :=
        (twins.channel mapping.segment.file).writeAt range.offset sizes
      have stored := twins.set mapping.segment.file channels fun shown => by
        rw [twins.same _ shown, same shown]
      dsimp only
      rw [count]
      split
      · exact .pure ⟨rfl, stored⟩
      · exact .pure ⟨rfl, stored⟩

end Twins
end FileStore

theorem Mapping.readPage_alike (mapping : Mapping) (files other : FileStore) (page : PageNumber)
    (dest last : Page) :
    (mapping.readPage files page dest).Alike (fun _ _ => True)
      (mapping.readPage other page last) :=
  .bind (.refl (mapping.fileRange page)) fun _ _ _ => .pure trivial

end DemandPaging
