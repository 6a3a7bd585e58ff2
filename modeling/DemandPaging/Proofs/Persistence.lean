import DemandPaging.Proofs.Regular
import DemandPaging.Proofs.Refusals

/-!
Which pages can be moved out of their frames. A page that its file gives back can be moved if
it is clean or the file takes all of its bytes, and any other page if the slot that is next can
be written. A page that cannot be moved is refused, and having tried changes nothing that
decides about this or any other page.
-/

namespace DemandPaging

variable {arch : Architecture}

namespace SwapDevice

variable {device written : SwapDevice} {sector : Nat} {data : Sector}

/-- The device carries out writes to a sector. -/
def Takes (device : SwapDevice) (sector : Nat) : Prop :=
  device.failingWrites.contains sector = false ∧ sector < device.disk.size

theorem write_isOk : (device.write sector data).isOk = true ↔ device.Takes sector := by
  unfold SwapDevice.write Disk.write Takes
  cases device.failingWrites.contains sector with
  | true => simp [Except.isOk, Except.toBool]
  | false =>
      by_cases inside : sector < device.disk.size
      · simp [inside, Except.isOk, Except.toBool, Bind.bind, Except.bind, Pure.pure, Except.pure]
      · simp [inside, Except.isOk, Except.toBool, Bind.bind, Except.bind]

theorem takes_write (write : device.write sector data = .ok written) :
    written.Takes = device.Takes := by
  unfold SwapDevice.write Disk.write at write
  split at write
  · cases write
  · split at write
    · cases write
      rfl
    · cases write

theorem writeSectors_isOk (device : SwapDevice) (first : Nat) (page : Page)
    (indices : List (Fin sectorsPerPage)) :
    ((device.writeSectors first page indices).1.isOk = true ↔
        ∀ index ∈ indices, device.Takes (first + index.val)) ∧
      (device.writeSectors first page indices).2.Takes = device.Takes := by
  induction indices generalizing device with
  | nil => exact ⟨by simp [writeSectors, Except.isOk, Except.toBool], rfl⟩
  | cons index rest ih =>
      have first_ok : (device.write (first + index.val) (page.sector index)).isOk = true ↔
          device.Takes (first + index.val) := write_isOk
      unfold writeSectors
      cases write : device.write (first + index.val) (page.sector index) with
      | error cause =>
          rw [write] at first_ok
          refine ⟨?_, rfl⟩
          simp only [List.forall_mem_cons]
          refine iff_of_false (fun done => nomatch done) fun all => ?_
          exact nomatch first_ok.mpr all.1
      | ok written =>
          rw [write] at first_ok
          obtain ⟨rest_ok, same⟩ := ih written
          have takes := takes_write write
          refine ⟨?_, same.trans takes⟩
          simp only [List.forall_mem_cons]
          rw [rest_ok, takes]
          exact ⟨fun later => ⟨first_ok.mp rfl, later⟩, And.right⟩

theorem writePage_isOk (device : SwapDevice) (first : Nat) (page : Page) :
    ((device.writePage first page).1.isOk = true ↔
        ∀ index : Fin sectorsPerPage, device.Takes (first + index.val)) ∧
      (device.writePage first page).2.Takes = device.Takes := by
  have sectors := writeSectors_isOk device first page (List.finRange sectorsPerPage)
  simp only [List.mem_finRange, forall_true_left] at sectors
  exact sectors

end SwapDevice

namespace SwapTable

variable {swap : SwapTable}

/-- A slot is free, and every sector of the one that would be handed out next can be written. -/
def HasRoom (swap : SwapTable) : Prop :=
  ∃ slot slots, swap.slots.allocate = .ok (some (slot, slots)) ∧
    ∀ index : Fin sectorsPerPage, swap.device.Takes (slot.value * sectorsPerPage + index.val)

/-- A page is stored exactly if there is room. After a failure the same slot is next, so there is
none either. -/
theorem store_isOk (wellFormed : swap.WellFormed) (contents : Page) :
    (swap.store contents).Satisfies (fun _ => True) fun (result, after) =>
      (result.isOk = true ↔ swap.HasRoom) ∧
        (result.isOk = false → (after.HasRoom ↔ swap.HasRoom)) := by
  unfold store
  refine .bind (.lift wellFormed.slots.allocate_satisfies) fun answer found => ?_
  cases answer with
  | none =>
      refine .pure ⟨iff_of_false (fun done => nomatch done) ?_, fun _ => Iff.rfl⟩
      rintro ⟨slot, slots, again, _⟩
      cases found.symm.trans again
  | some allocation =>
      obtain ⟨slot, taken⟩ := allocation
      obtain ⟨taken', _, inside, _, allocated⟩ := wellFormed.slots.allocate found
      have room : swap.HasRoom ↔ ∀ index : Fin sectorsPerPage,
          swap.device.Takes (slot.value * sectorsPerPage + index.val) := by
        refine ⟨?_, fun all => ⟨slot, taken, found, all⟩⟩
        rintro ⟨_, _, again, all⟩
        cases found.symm.trans again
        exact all
      refine .bind (.lift (.of_eq (wellFormed.firstSector_eq inside) rfl)) ?_
      rintro _ rfl
      obtain ⟨done, takes⟩ :=
        swap.device.writePage_isOk (slot.value * sectorsPerPage) contents
      rw [← room] at done
      generalize swap.device.writePage (slot.value * sectorsPerPage) contents = write
        at done takes ⊢
      obtain ⟨result, device⟩ := write
      cases result with
      | ok _ => exact .bind .log fun _ _ => .pure ⟨done, by rintro ⟨⟩⟩
      | error cause =>
          refine .bind (.lift (taken'.release_reissues ((allocated slot).mpr (.inl rfl)))) ?_
          rintro slots ⟨again, next⟩
          refine .pure ⟨done, fun _ => ?_⟩
          rw [room]
          refine ⟨?_, fun all => ⟨slot, again, next, ?_⟩⟩
          · rintro ⟨_, _, again, all⟩
            cases next.symm.trans again
            exact fun index => (congrFun takes _).mp (all index)
          · exact fun index => (congrFun takes _).mpr (all index)

end SwapTable

namespace FileChannel

variable {channel : FileChannel} {offset : Nat} {source : Bytes}

/-- A write of so many bytes is taken whole. -/
def Takes (channel : FileChannel) (offset length : Nat) : Prop :=
  length ≤ capped channel.writeCap length ∧ length ≤ channel.file.size - offset

theorem size_le_writeAt :
    source.size ≤ (channel.writeAt offset source).1 ↔ channel.Takes offset source.size := by
  have moved : (source.extract 0 (capped channel.writeCap source.size)).size =
      capped channel.writeCap source.size := by
    rw [Array.size_extract, Nat.sub_zero]
    refine Nat.min_eq_left ?_
    unfold capped
    split
    · exact Nat.le_refl _
    · exact Nat.min_le_left _ _
  change _ ≤ min (source.extract 0 _).size _ ↔ _
  rw [moved, Nat.le_min]
  rfl

theorem takes_writeAt : (channel.writeAt offset source).2.Takes = channel.Takes := by
  have size := size_writeAt channel offset source
  funext start length
  unfold Takes File.size
  rw [size]
  rfl

end FileChannel

namespace Mapping

variable {mapping : Mapping} {page : PageNumber} {files after : FileStore} {source : Page}
  {result : Except VmError Unit} {range : FileRange}

theorem writePage_isOk (written : mapping.writePage files page source = .ok (result, after))
    (unspared : ¬mapping.Spares) (located : mapping.fileRange page = .ok range) :
    (result.isOk = true ↔
        (files.get mapping.segment.file).Takes range.offset range.length) ∧
      ∀ file, (after.get file).Takes = (files.get file).Takes := by
  have spares : ¬(!mapping.segment.writable || mapping.segment.static) = true := by
    simpa [Spares] using unspared
  have full : (source.slice 0 range.length).size = range.length := by
    have small := (fileRange_eq_ok located).2.2
    unfold Page.slice
    rw [Array.size_extract, Vector.size_toArray]
    omega
  have takes : (source.slice 0 range.length).size ≤
      ((files.get mapping.segment.file).writeAt range.offset (source.slice 0 range.length)).1 ↔
        (files.get mapping.segment.file).Takes range.offset (source.slice 0 range.length).size :=
    FileChannel.size_le_writeAt
  rw [full] at takes
  unfold writePage at written
  rw [if_neg spares, located, Checked.ok_bind] at written
  split at written
  · rename_i empty
    cases written
    refine ⟨iff_of_true rfl ?_, fun _ => rfl⟩
    rw [← takes, empty]
    exact Nat.zero_le _
  · have same : ∀ file, ((files.set mapping.segment.file
        ((files.get mapping.segment.file).writeAt range.offset
          (source.slice 0 range.length)).2).get file).Takes = (files.get file).Takes := by
      intro file
      rw [FileStore.get_set]
      split
      · rename_i own
        rw [own]
        exact FileChannel.takes_writeAt
      · rfl
    dsimp only at written
    split at written
    · rename_i short
      cases written
      refine ⟨iff_of_false Bool.false_ne_true ?_, same⟩
      rw [← takes]
      omega
    · rename_i whole
      cases written
      refine ⟨iff_of_true rfl (takes.mp ?_), same⟩
      omega

end Mapping

namespace Tenants

variable {tenants after : Tenants arch} {ownerOf : FrameNumber → Option UserPage}
  {frame : FrameNumber} {page : UserPage} {contents : FrameNumber → Page}

/-- A resident page can be moved out of its frame: its file gives it back and it is clean; or it is
dirty and the file takes all of its bytes that the file backs; or it goes to swap, where there is
room. -/
inductive Persistable (tenants : Tenants arch) (page : UserPage) : Prop
  | clean (entry : PageEntry) (id : MappingId) (mapping : Mapping)
      (found : tenants.entryAt page = some entry) (resident : entry.isResident = true)
      (belongs : entry.mapping = some id) (live : tenants.mappings.get? id = some mapping)
      (filed : mapping.evictsToFile page.2 = .ok true)
      (unchanged : tenants.dirtyAt page = false) : Persistable tenants page
  | written (entry : PageEntry) (id : MappingId) (mapping : Mapping) (range : Mapping.FileRange)
      (found : tenants.entryAt page = some entry) (resident : entry.isResident = true)
      (belongs : entry.mapping = some id) (live : tenants.mappings.get? id = some mapping)
      (filed : mapping.evictsToFile page.2 = .ok true)
      (changed : tenants.dirtyAt page = true)
      (located : mapping.fileRange page.2 = .ok range)
      (takes : (tenants.files.get mapping.segment.file).Takes range.offset range.length) :
      Persistable tenants page
  | swapped (entry : PageEntry)
      (found : tenants.entryAt page = some entry) (resident : entry.isResident = true)
      (kept : ∀ id mapping, entry.mapping = some id → tenants.mappings.get? id = some mapping →
        mapping.evictsToFile page.2 = .ok false)
      (room : tenants.swap.HasRoom) : Persistable tenants page

theorem Persistable.resident (persistable : tenants.Persistable page) :
    ∃ entry, tenants.entryAt page = some entry ∧ entry.isResident = true := by
  cases persistable with
  | clean entry _ _ found resident | written entry _ _ _ found resident
  | swapped entry found resident => exact ⟨entry, found, resident⟩

theorem hasRoom_iff_persistable {entry : PageEntry} (present : tenants.entryAt page = some entry)
    (resident : entry.isResident = true)
    (kept : ∀ id mapping, entry.mapping = some id → tenants.mappings.get? id = some mapping →
      mapping.evictsToFile page.2 = .ok false) :
    tenants.swap.HasRoom ↔ tenants.Persistable page := by
  refine ⟨fun room => .swapped entry present resident kept room, fun persistable => ?_⟩
  cases persistable with
  | clean other id mapping found _ belongs live filed =>
      cases present.symm.trans found
      cases filed.symm.trans (kept id mapping belongs live)
  | written other id mapping range found _ belongs live filed =>
      cases present.symm.trans found
      cases filed.symm.trans (kept id mapping belongs live)
  | swapped other _ _ _ room => exact room

theorem takes_iff_persistable {entry : PageEntry} {id : MappingId} {mapping : Mapping}
    {range : Mapping.FileRange} (present : tenants.entryAt page = some entry)
    (resident : entry.isResident = true) (belongs : entry.mapping = some id)
    (live : tenants.mappings.get? id = some mapping)
    (filed : mapping.evictsToFile page.2 = .ok true) (changed : tenants.dirtyAt page = true)
    (located : mapping.fileRange page.2 = .ok range) :
    (tenants.files.get mapping.segment.file).Takes range.offset range.length ↔
      tenants.Persistable page := by
  refine ⟨fun takes => .written entry id mapping range present resident belongs live filed changed
    located takes, fun persistable => ?_⟩
  cases persistable with
  | clean _ _ _ _ _ _ _ _ unchanged => cases unchanged.symm.trans changed
  | written other _ _ again found _ belongs' live' _ _ located' takes =>
      cases present.symm.trans found
      cases belongs.symm.trans belongs'
      cases live.symm.trans live'
      cases located.symm.trans located'
      exact takes
  | swapped other found _ kept =>
      cases present.symm.trans found
      cases filed.symm.trans (kept id mapping belongs live)

/-- Everything that decides about moving pages is the same. -/
structure Agrees (tenants after : Tenants arch) : Prop where
  entries : after.entryAt = tenants.entryAt
  dirty : after.dirtyAt = tenants.dirtyAt
  mappings : after.mappings.get? = tenants.mappings.get?
  files : ∀ file, (after.files.get file).Takes = (tenants.files.get file).Takes
  room : after.swap.HasRoom ↔ tenants.swap.HasRoom

theorem Agrees.refl (tenants : Tenants arch) : tenants.Agrees tenants :=
  ⟨rfl, rfl, rfl, fun _ => rfl, Iff.rfl⟩

theorem Agrees.symm (agrees : tenants.Agrees after) : after.Agrees tenants :=
  ⟨agrees.entries.symm, agrees.dirty.symm, agrees.mappings.symm,
    fun file => (agrees.files file).symm, agrees.room.symm⟩

theorem Agrees.trans {last : Tenants arch} (agrees : tenants.Agrees after)
    (later : after.Agrees last) : tenants.Agrees last :=
  ⟨later.entries.trans agrees.entries, later.dirty.trans agrees.dirty,
    later.mappings.trans agrees.mappings, fun file => (later.files file).trans (agrees.files file),
    later.room.trans agrees.room⟩

theorem Persistable.agrees (persistable : tenants.Persistable page)
    (agrees : tenants.Agrees after) : after.Persistable page := by
  obtain ⟨entries, dirty, mappings, files, room⟩ := agrees
  cases persistable with
  | clean entry id mapping found resident belongs live filed unchanged =>
      exact .clean entry id mapping (entries ▸ found) resident belongs (mappings ▸ live) filed
        (dirty ▸ unchanged)
  | written entry id mapping range found resident belongs live filed changed located takes =>
      exact .written entry id mapping range (entries ▸ found) resident belongs (mappings ▸ live)
        filed (dirty ▸ changed) located ((files _).symm ▸ takes)
  | swapped entry found resident kept has =>
      exact .swapped entry (entries ▸ found) resident (mappings ▸ kept) (room.mpr has)

theorem Agrees.persistable_iff (agrees : tenants.Agrees after) :
    after.Persistable page ↔ tenants.Persistable page :=
  ⟨fun persistable => persistable.agrees agrees.symm,
    fun persistable => persistable.agrees agrees⟩

/-- The answer to whether a page can be moved: it is moved if it can be, and a refusal leaves
everything that decides as it was. -/
def Decides (tenants : Tenants arch) (page : UserPage)
    (answer : Except VmError Unit × Tenants arch) : Prop :=
  (answer.1.isOk = true ↔ tenants.Persistable page) ∧
    (answer.1.isOk = false → tenants.Agrees answer.2 ∧
      answer.2.accessedAt = tenants.accessedAt)

theorem evictToSwap_decides (wellFormed : tenants.swap.WellFormed)
    (room : tenants.swap.HasRoom ↔ tenants.Persistable page) (space : AddressSpace arch)
    (contents : Page) :
    (tenants.evictToSwap page.1 space page.2 contents).Satisfies (fun _ => True)
      (tenants.Decides page) := by
  unfold evictToSwap
  refine .bind (SwapTable.store_isOk wellFormed contents) ?_
  rintro ⟨result, swap⟩ ⟨done, same⟩
  cases result with
  | error cause =>
      exact .pure ⟨done.trans room, fun _ => ⟨⟨rfl, rfl, rfl, fun _ => rfl, same rfl⟩, rfl⟩⟩
  | ok slot =>
      exact .bind (.lift .any) fun _ _ =>
        .pure ⟨iff_of_true rfl (room.mp (done.mp rfl)), fun failed => nomatch failed⟩

theorem evictToFile_decides {space : AddressSpace arch} {mapping : Mapping}
    (clean : space.directory.isDirty page.2 = false → tenants.Persistable page)
    (changed : space.directory.isDirty page.2 = true → ¬mapping.Spares ∧
      ∀ range, mapping.fileRange page.2 = .ok range →
        ((tenants.files.get mapping.segment.file).Takes range.offset range.length ↔
          tenants.Persistable page)) (contents : Page) :
    (tenants.evictToFile page.1 space mapping page.2 contents).Satisfies (fun _ => True)
      (tenants.Decides page) := by
  unfold evictToFile
  split
  · rename_i dirty
    obtain ⟨unspared, takes⟩ := changed dirty
    refine .bind (.lift (.of_errors fun _ _ => trivial)) ?_
    rintro ⟨result, files⟩ written
    obtain ⟨spared, _⟩ | ⟨_, ⟨range, located, _⟩, _⟩ := Mapping.writePage_eq_ok written
    · exact absurd spared unspared
    · obtain ⟨done, same⟩ := Mapping.writePage_isOk written unspared located
      rw [takes range located] at done
      cases result with
      | error cause =>
          exact .pure ⟨done, fun _ => ⟨⟨rfl, rfl, rfl, same, Iff.rfl⟩, rfl⟩⟩
      | ok _ =>
          exact .bind (.lift .any) fun _ _ => .pure ⟨done, fun failed => nomatch failed⟩
  · rename_i dirty
    rw [pure_bind]
    exact .bind (.lift .any) fun _ _ => .pure ⟨iff_of_true rfl
      (clean (Bool.not_eq_true _ ▸ dirty)), fun failed => nomatch failed⟩

/-- A page is moved out of its frame exactly if it can be. -/
theorem evict_decides (consistent : tenants.Consistent (fun _ => True) ownerOf)
    (regular : (tenants.layout contents).Regular) (owned : ownerOf frame = some page)
    (written : Page) :
    (tenants.evict page.1 page.2 written).Satisfies (fun _ => True) (tenants.Decides page) := by
  obtain ⟨entry, present, source⟩ := (consistent.owners frame _).mp owned
  have resident := PageEntry.isResident_of_frame source
  obtain ⟨space, found, listed⟩ := space_of_entryAt present
  have admits := (consistent.sound contents).admits _ entry present
  have dirtyAt : tenants.dirtyAt page = space.directory.isDirty page.2 :=
    dirtyAt_of_space found page.2
  unfold evict
  simp only [found, mappingOf?_eq listed]
  cases belongs : entry.mapping with
  | none =>
      refine evictToSwap_decides consistent.swap (hasRoom_iff_persistable present resident ?_) space
        written
      intro id mapping named
      cases belongs.symm.trans named
  | some id =>
      obtain ⟨mapping, live, _, _, writable⟩ := admits.mapped id belongs
      change tenants.mappings.get? id = some mapping at live
      simp only [Option.bind_some, live]
      refine .bind (.lift (.of_errors fun _ _ => trivial)) ?_
      intro filed decided
      cases filed with
      | false =>
          refine evictToSwap_decides consistent.swap
            (hasRoom_iff_persistable present resident ?_) space written
          intro other another named again
          cases belongs.symm.trans named
          cases live.symm.trans again
          exact decided
      | true =>
          refine evictToFile_decides (fun unchanged => .clean entry id mapping present resident
            belongs live decided (dirtyAt.trans unchanged)) (fun changed => ⟨?_, ?_⟩) written
          · -- a dirty page can be written, and a static one would go to swap
            obtain ⟨again, found', permitted⟩ := regular.dirty page (dirtyAt.trans changed)
            cases present.symm.trans found'
            rw [permitted] at writable
            rintro (readOnly | static)
            · cases writable.symm.trans readOnly
            · unfold Mapping.evictsToFile at decided
              rw [if_pos static] at decided
              cases decided
          · exact fun range => takes_iff_persistable present resident belongs live decided
              (dirtyAt.trans changed)

end Tenants
end DemandPaging
