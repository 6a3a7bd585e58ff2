import DemandPaging.Proofs.WriteBack

/-!
Files whose transfers fall short. A read that moves fewer bytes than it is asked to leaves
zeros in the frame, and when the page is written back they replace bytes of the file that no
process has written. Nothing else does: a byte of the file that is not copied to stays as it
is, or becomes zero if a read of its page has been cut short of it.
-/

namespace DemandPaging

variable {arch : Architecture} {tolerated : Violation → Prop}

namespace Mapping

variable {mapping : Mapping} {page : PageNumber} {files after : FileStore} {original : Bytes}
  {index : Nat}

/-- A byte of the region is past what one read of the file moves of its page. -/
def Cuts (mapping : Mapping) (files : FileStore) (index : Nat) : Prop :=
  ∃ cap, (files.get mapping.segment.file).readCap = some cap ∧ cap ≤ index % pageSize

theorem Cuts.congr {files files' : FileStore}
    (same : (files'.get mapping.segment.file).readCap = (files.get mapping.segment.file).readCap)
    (cuts : mapping.Cuts files' index) : mapping.Cuts files index := by
  obtain ⟨cap, limit, beyond⟩ := cuts
  exact ⟨cap, same.symm.trans limit, beyond⟩

/-- A byte is as the file had it at first, or it is cut and zero. -/
def Fair (mapping : Mapping) (original : Bytes) (cut : Nat → Prop) (index : Nat)
    (byte : Option UInt8) : Prop :=
  byte = original[mapping.segment.offset + index]? ∨ cut index ∧ byte = some 0

theorem Fair.mono {cut cut' : Nat → Prop} {byte : Option UInt8} (wider : cut index → cut' index)
    (fair : mapping.Fair original cut index byte) : mapping.Fair original cut' index byte :=
  fair.imp_right fun ⟨lost, zero⟩ => ⟨wider lost, zero⟩

theorem readCap_writePage {source : Page} {result : Except VmError Unit}
    (written : mapping.writePage files page source = .ok (result, after)) :
    (after.get mapping.segment.file).readCap = (files.get mapping.segment.file).readCap := by
  obtain ⟨_, rfl⟩ | ⟨_, ⟨range, _, stored⟩, _⟩ := writePage_eq_ok written
  · rfl
  · rw [stored]
    rfl

theorem written_byte {source : Page} {result : Except VmError Unit}
    (written : mapping.writePage files page source = .ok (result, after)) (i : Nat) :
    (after.get mapping.segment.file).file.contents[i]? =
        (files.get mapping.segment.file).file.contents[i]? ∨
      ∃ index, index < mapping.segment.fileLength ∧ mapping.bytePage index = page ∧
        i = mapping.segment.offset + index ∧
        i < (files.get mapping.segment.file).file.contents.size ∧
        (after.get mapping.segment.file).file.contents[i]? = source[index % pageSize]? := by
  obtain ⟨_, rfl⟩ | ⟨_, ⟨range, found, stored⟩, _⟩ := writePage_eq_ok written
  · exact .inl rfl
  · obtain ⟨inside, offset, length⟩ := fileRange_eq_ok found
    unfold contains at inside
    simp only [Bool.and_eq_true, decide_eq_true_eq] at inside
    have size : (source.slice 0 range.length).size = range.length :=
      Page.size_slice source (by omega)
    have contents : (after.get mapping.segment.file).file.contents =
        (files.get mapping.segment.file).file.contents.overwrite range.offset
          ((source.slice 0 range.length).extract 0
            (FileChannel.capped (files.get mapping.segment.file).writeCap range.length)) := by
      rw [stored]
      unfold FileChannel.writeAt File.writeAt
      rw [size]
    rw [contents, Bytes.getElem?_overwrite]
    split
    · rename_i within
      obtain ⟨above, small, stops⟩ := within
      rw [Array.size_extract, size] at small
      refine .inr ⟨i - mapping.segment.offset, by omega, ?_, by omega, stops, ?_⟩
      · refine Number.ext ?_
        unfold bytePage
        simp only [pageSize] at offset length ⊢
        omega
      · rw [Array.getElem?_extract, if_pos (by omega), Nat.zero_add,
          Page.getElem?_slice source 0 (by omega), Nat.zero_add]
        congr 1
        unfold pageSize at offset length ⊢
        omega
    · exact .inl rfl

/-- A byte of a page that is read is that of the file, unless the read is cut short of it: then
it is zero. -/
theorem read_byte {dest contents : Page}
    (read : mapping.readPage files page dest = .ok contents)
    (small : index < mapping.segment.fileLength) (here : mapping.bytePage index = page)
    (inside : mapping.segment.offset + index <
      (files.get mapping.segment.file).file.contents.size) :
    contents[index % pageSize]? =
        (files.get mapping.segment.file).file.contents[mapping.segment.offset + index]? ∨
      mapping.Cuts files index ∧ contents[index % pageSize]? = some 0 := by
  unfold readPage at read
  cases found : mapping.fileRange page with
  | error violation =>
      rw [found] at read
      cases read
  | ok range =>
      rw [found, Checked.ok_bind] at read
      obtain ⟨_, offset, length⟩ := fileRange_eq_ok found
      have start : page.value - mapping.base.value = index / pageSize := by
        rw [← here]
        exact Nat.add_sub_cancel_left _ _
      have bound : index % pageSize < pageSize := Nat.mod_lt _ (by decide)
      have split : index = index / pageSize * pageSize + index % pageSize := by
        unfold pageSize
        omega
      rw [start] at offset length
      rw [← Except.ok.inj read, Page.getElem?_clearFrom _ _ bound]
      unfold FileChannel.readAt File.readAt
      rw [Array.size_extract]
      by_cases taken : index % pageSize < min
          (range.offset + FileChannel.capped (files.get mapping.segment.file).readCap range.length)
          (files.get mapping.segment.file).file.contents.size - range.offset
      · left
        rw [if_pos taken, Page.getElem?_overwrite _ _ _ bound, if_pos, Nat.sub_zero,
          Array.getElem?_extract, if_pos taken]
        · congr 1
          omega
        · rw [Array.size_extract]
          exact ⟨Nat.zero_le _, taken⟩
      · right
        rw [if_neg taken]
        refine ⟨?_, rfl⟩
        unfold FileChannel.capped at taken
        cases limit : (files.get mapping.segment.file).readCap with
        | none =>
            rw [limit] at taken
            dsimp only at taken
            omega
        | some cap =>
            rw [limit] at taken
            dsimp only at taken
            exact ⟨cap, limit, by omega⟩

/-- A byte of the region is one of `count` at an address of a process. -/
def Meets (mapping : Mapping) (process : ProcessId) (address : VirtualAddress)
    (count index : Nat) : Prop :=
  process = mapping.owner ∧ address.value ≤ mapping.segment.address.value + index ∧
    mapping.segment.address.value + index < address.value + count

end Mapping

namespace Layout

variable {layout moved : Layout} {page : UserPage} {entry : PageEntry} {mapping : Mapping}
  {original : Bytes} {stored stored' cut cut' : Nat → Prop} {frame : FrameNumber} {index : Nat}

/-- The frame has a byte of the region, for the mapping. -/
def Held (layout : Layout) (mapping : Mapping) (index : Nat) (frame : FrameNumber) : Prop :=
  layout.mapping mapping.id = some mapping ∧ ∃ entry,
    layout.entry (mapping.userPage index) = some entry ∧ entry.mapping = some mapping.id ∧
      entry.backing = .frame frame

theorem Held.backs (held : layout.Held mapping index frame) :
    layout.Backs (mapping.userPage index) (.frame frame) := by
  obtain ⟨_, entry, found, _, resident⟩ := held
  exact ⟨entry, found, resident⟩

def Alone (layout : Layout) (mapping : Mapping) : Prop :=
  ∀ id other, layout.mapping id = some other →
    other.segment.file = mapping.segment.file → other = mapping

/-- Bytes of the file that are not stored to are fair, in the file and in frames; bytes that are
not of the region are as they were. -/
structure Unharmed (mapping : Mapping) (original : Bytes) (stored cut : Nat → Prop)
    (layout : Layout) : Prop where
  unspared : ¬mapping.Spares
  alone : layout.Alone mapping
  /-- Only bytes that count as cut are cut by reads. -/
  legible : ∀ index, index < mapping.segment.fileLength → mapping.Cuts layout.files index →
    cut index
  size : (layout.fileBytes mapping).size = original.size
  outside : ∀ i, (∀ index, index < mapping.segment.fileLength →
    i ≠ mapping.segment.offset + index) → (layout.fileBytes mapping)[i]? = original[i]?
  filed : ∀ index, index < mapping.segment.fileLength → ¬stored index →
    mapping.Fair original cut index
      (layout.fileBytes mapping)[mapping.segment.offset + index]?
  framed : ∀ index frame, index < mapping.segment.fileLength → ¬stored index →
    mapping.segment.offset + index < original.size → layout.Held mapping index frame →
      mapping.Fair original cut index (layout.frame frame)[index % pageSize]?

theorem Unharmed.mono (unharmed : layout.Unharmed mapping original stored cut)
    (more : ∀ index, stored index → stored' index) (wider : ∀ index, cut index → cut' index) :
    layout.Unharmed mapping original stored' cut' := by
  obtain ⟨unspared, alone, legible, size, outside, filed, framed⟩ := unharmed
  refine ⟨unspared, alone, ?_, size, outside, ?_, ?_⟩
  · exact fun index small cuts => wider index (legible index small cuts)
  · exact fun index small kept => (filed index small (kept ∘ more index)).mono (wider index)
  · exact fun index frame small kept inside held =>
      (framed index frame small (kept ∘ more index) inside held).mono (wider index)

theorem Unharmed.alter (unharmed : layout.Unharmed mapping original stored cut)
    (files : moved.files = layout.files) (alone : moved.Alone mapping)
    (framed : ∀ index frame, index < mapping.segment.fileLength → ¬stored index →
      mapping.segment.offset + index < original.size → moved.Held mapping index frame →
        mapping.Fair original cut index (moved.frame frame)[index % pageSize]?) :
    moved.Unharmed mapping original stored cut := by
  obtain ⟨unspared, _, legible, size, outside, filed, _⟩ := unharmed
  unfold fileBytes at size outside filed
  rw [← files] at size outside filed legible
  exact ⟨unspared, alone, legible, size, outside, filed, framed⟩

theorem Unharmed.fillFrame (unharmed : layout.Unharmed mapping original stored cut)
    (idle : ∀ page, ¬layout.Backs page (.frame frame)) (contents : Page) :
    (layout.fillFrame frame contents).Unharmed mapping original stored cut := by
  refine unharmed.alter rfl unharmed.alone fun index other small kept inside held => ?_
  change layout.Held mapping index other at held
  have differs : other ≠ frame := by
    rintro rfl
    exact idle _ held.backs
  change mapping.Fair original cut index (Function.update layout.frame frame contents other)[_]?
  rw [Function.update_of_ne differs]
  exact unharmed.framed index other small kept inside held

theorem Unharmed.place (unharmed : layout.Unharmed mapping original stored cut)
    {placed : Option PageEntry}
    (own : ∀ entry frame, placed = some entry → entry.backing = .frame frame →
      entry.mapping = some mapping.id → layout.mapping mapping.id = some mapping →
      ∀ index, index < mapping.segment.fileLength → ¬stored index →
        mapping.segment.offset + index < original.size → mapping.userPage index = page →
          mapping.Fair original cut index (layout.frame frame)[index % pageSize]?) :
    (layout.place page placed).Unharmed mapping original stored cut := by
  refine unharmed.alter rfl unharmed.alone fun index frame small kept inside held => ?_
  obtain ⟨live, entry, found, belongs, resident⟩ := held
  rw [place_entry] at found
  split at found
  · rename_i here
    exact own entry frame found resident belongs live index small kept inside here
  · exact unharmed.framed index frame small kept inside ⟨live, entry, found, belongs, resident⟩

theorem Unharmed.leave (unharmed : layout.Unharmed mapping original stored cut)
    {placed : Option PageEntry}
    (away : ∀ entry frame, placed = some entry → entry.backing ≠ .frame frame) :
    (layout.place page placed).Unharmed mapping original stored cut :=
  unharmed.place fun entry frame found resident => absurd resident (away entry frame found)

theorem Unharmed.writeBack (unharmed : layout.Unharmed mapping original stored cut)
    (sound : layout.Sound tolerated) {id : MappingId} {known : Mapping}
    {result : Except VmError Unit} {files : FileStore}
    (found : layout.entry page = some entry) (resident : entry.backing = .frame frame)
    (belongs : entry.mapping = some id) (live : layout.mapping id = some known)
    (written : known.writePage layout.files page.2 (layout.frame frame) = .ok (result, files)) :
    ({ layout with files } : Layout).Unharmed mapping original stored cut := by
  obtain ⟨unspared, alone, legible, size, outside, filed, framed⟩ := unharmed
  by_cases same : known.segment.file = mapping.segment.file
  · obtain rfl := alone id known live same
    obtain rfl := sound.named id known live
    obtain ⟨known', live', owner, _⟩ := (sound.admits page entry found).mapped _ belongs
    cases live.symm.trans live'
    refine ⟨unspared, alone, ?_, ?_, ?_, ?_, framed⟩
    · exact fun index small cuts =>
        legible index small (cuts.congr (Mapping.readCap_writePage written))
    · exact (Mapping.size_writePage written).trans size
    · intro i elsewhere
      obtain same | ⟨index, small, _, place, _⟩ := Mapping.written_byte written i
      · exact same.trans (outside i elsewhere)
      · exact absurd place (elsewhere index small)
    · intro index small kept
      have bytes := Mapping.written_byte written (known.segment.offset + index)
      change known.Fair original cut index (files.get known.segment.file).file.contents[_]?
      obtain same | ⟨other, _, here, place, inside, byte⟩ := bytes
      · rw [same]
        exact filed index small kept
      · obtain rfl : index = other := by omega
        rw [byte]
        refine framed index frame small kept (size ▸ inside) ⟨live, entry, ?_, belongs, resident⟩
        rw [← found]
        exact congrArg layout.entry (Prod.ext owner here)
  · have others := Mapping.writePage_get written (Ne.symm same)
    refine ⟨unspared, alone, ?_, ?_, ?_, ?_, framed⟩
    · exact fun index small cuts =>
        legible index small (cuts.congr (congrArg FileChannel.readCap others))
    all_goals
      unfold fileBytes
      rw [others]
      assumption

theorem Unharmed.shift (unharmed : layout.Unharmed mapping original stored cut)
    (sound : layout.Sound tolerated) (step : Shift layout moved) :
    moved.Unharmed mapping original stored cut := by
  cases step with
  | scratchSlot slot contents idle => exact unharmed.alter rfl unharmed.alone unharmed.framed
  | scratchFrame frame contents idle => exact unharmed.fillFrame idle contents
  | writeBack page entry frame id known result files found resident belongs live written =>
      exact unharmed.writeBack sound found resident belongs live written
  | toSwap page entry frame slot => exact unharmed.leave (by rintro _ _ ⟨⟩ ⟨⟩)
  | toFile page entry frame id => exact unharmed.leave (by rintro _ _ ⟨⟩ ⟨⟩)

theorem Unharmed.moves (unharmed : layout.Unharmed mapping original stored cut)
    (sound : layout.Sound tolerated) (path : Relation.ReflTransGen Shift layout moved) :
    moved.Unharmed mapping original stored cut := by
  induction path with
  | refl => exact unharmed
  | tail path step ih => exact ih.shift (sound.moves path) step

/-- A page of the mapping that comes from the file has zeros where the read is cut short. -/
theorem Unharmed.arrive (unharmed : layout.Unharmed mapping original stored cut)
    (sound : layout.Sound tolerated) (arrival : Arrival page frame layout moved) :
    moved.Unharmed mapping original stored cut := by
  cases arrival with
  | fresh writable idle new =>
      refine (unharmed.fillFrame idle _).place ?_
      rintro entry frame ⟨⟩ _ ⟨⟩
  | swapped entry slot idle found source =>
      refine (unharmed.fillFrame idle _).place ?_
      -- the mapping's own pages are never in swap
      rintro _ _ ⟨⟩ _ belongs live index small _ _ rfl
      exact absurd ((sound.admits _ entry found).kept slot _ _ source belongs live)
        (Mapping.evictsToFile_ne_false unharmed.unspared small rfl)
  | filed entry id known dest contents idle found source live read =>
      refine (unharmed.fillFrame idle _).place ?_
      rintro _ other ⟨⟩ ⟨⟩ belongs live' index small kept inside rfl
      cases belongs.symm.trans ((sound.admits _ entry found).filed id source)
      cases live.symm.trans live'
      change mapping.Fair original cut index (Function.update layout.frame frame contents frame)[_]?
      rw [Function.update_self]
      obtain byte | ⟨cuts, zero⟩ :=
        Mapping.read_byte read small rfl (unharmed.size.symm ▸ inside)
      · rw [byte]
        exact unharmed.filed index small kept
      · exact .inr ⟨unharmed.legible index small cuts, zero⟩

theorem Unharmed.brings (unharmed : layout.Unharmed mapping original stored cut)
    (sound : layout.Sound tolerated) {middle : Layout}
    (path : Relation.ReflTransGen Shift layout middle)
    (arrival : Arrival page frame middle moved) : moved.Unharmed mapping original stored cut :=
  (unharmed.moves sound path).arrive (sound.moves path) arrival

theorem Unharmed.reach (unharmed : layout.Unharmed mapping original stored cut)
    (sound : layout.Sound tolerated) (reach : Reach page layout moved) :
    moved.Unharmed mapping original stored cut := by
  cases reach with
  | here => exact unharmed
  | brought middle frame moved path arrival => exact unharmed.brings sound path arrival

theorem mapping_of_reach (reach : Reach page layout moved) : moved.mapping = layout.mapping := by
  cases reach with
  | here => rfl
  | brought middle frame moved path arrival =>
      exact (mapping_of_arrival arrival).trans (mapping_of_moves path)

theorem Unharmed.shrink {ended : MappingId → Prop}
    (unharmed : layout.Unharmed mapping original stored cut) (sound : layout.Sound tolerated)
    (step : Shrink ended layout moved) : moved.Unharmed mapping original stored cut := by
  cases step with
  | shift step => exact unharmed.shift sound step
  | remove page => exact unharmed.leave (by rintro _ _ ⟨⟩)
  | leave process => exact unharmed.alter rfl unharmed.alone unharmed.framed
  | unmap id ending unused =>
      refine unharmed.alter rfl ?_ fun index frame small kept inside held => ?_
      · exact fun other known live => unharmed.alone other known (mapping_of_unmap live)
      · obtain ⟨live, resident⟩ := held
        exact unharmed.framed index frame small kept inside ⟨mapping_of_unmap live, resident⟩

theorem Unharmed.shrinks {ended : MappingId → Prop}
    (unharmed : layout.Unharmed mapping original stored cut) (sound : layout.Sound tolerated)
    (path : Relation.ReflTransGen (Shrink ended) layout moved) :
    moved.Unharmed mapping original stored cut := by
  induction path with
  | refl => exact unharmed
  | tail path step ih => exact ih.shrink (sound.shrinks path) step

theorem Unharmed.write (unharmed : layout.Unharmed mapping original stored cut)
    (sound : layout.Sound tolerated) (grants : layout.Grants page frame true) {start : Nat}
    {source : Bytes} (more : ∀ index, stored index → stored' index)
    (covered : ∀ index, layout.mapping mapping.id = some mapping →
      Covered mapping page start source.size index → stored' index) :
    ((layout.use page true).fillFrame frame
      ((layout.frame frame).overwrite start source)).Unharmed mapping original stored' cut := by
  refine (unharmed.mono more fun _ h => h).alter rfl unharmed.alone ?_
  intro index other small kept inside held
  change layout.Held mapping index other at held
  have before := unharmed.framed index other small (kept ∘ more index) inside held
  change mapping.Fair original cut index (Function.update layout.frame frame _ other)[_]?
  by_cases here : other = frame
  · subst here
    obtain ⟨entry, found, resident, _⟩ := grants
    have same : mapping.userPage index = page :=
      sound.unique (.frame other) trivial ⟨entry, found, resident⟩ held.backs
    rw [Function.update_self, Page.getElem?_overwrite _ _ _ (Nat.mod_lt _ (by decide)), if_neg]
    · exact before
    · exact fun inside => kept (covered index held.1 ⟨same, inside⟩)
  · rw [Function.update_of_ne here]
    exact before

theorem Unharmed.extend (unharmed : layout.Unharmed mapping original stored cut)
    (sound : layout.Sound tolerated) {other : Mapping}
    (fresh : layout.mapping other.id = none) (alone : (layout.extend other).Alone mapping) :
    (layout.extend other).Unharmed mapping original stored cut := by
  refine unharmed.alter rfl alone fun index frame small kept inside held => ?_
  obtain ⟨live, entry, found, belongs, resident⟩ := held
  rw [extend_entry] at found
  split at found
  · cases found
    cases resident
  · refine unharmed.framed index frame small kept inside ⟨?_, entry, found, belongs, resident⟩
    rw [extend_mapping] at live
    split at live
    · rename_i same
      obtain ⟨known, live', _⟩ := (sound.admits _ entry found).mapped _ belongs
      rw [same, fresh] at live'
      cases live'
    · exact live

theorem Unharmed.refile (unharmed : layout.Unharmed mapping original stored cut) {file : FileId}
    {channel : FileChannel}
    (same : file = mapping.segment.file → channel.file = (layout.files.get file).file)
    (legible : ∀ index, index < mapping.segment.fileLength →
      mapping.Cuts (layout.files.set file channel) index → cut index) :
    ({ layout with files := layout.files.set file channel } : Layout).Unharmed mapping original
      stored cut := by
  obtain ⟨unspared, alone, _, size, outside, filed, framed⟩ := unharmed
  have bytes : ({ layout with files := layout.files.set file channel } : Layout).fileBytes
      mapping = layout.fileBytes mapping := by
    unfold fileBytes
    dsimp only
    rw [FileStore.get_set]
    split
    · rename_i own
      rw [same own.symm, own]
    · rfl
  exact ⟨unspared, alone, legible, bytes ▸ size, bytes ▸ outside, bytes ▸ filed, framed⟩

/-- An operation that is neither a copy nor a replacement of the file does no harm, as long as
no other mapping is of the file. -/
theorem Unharmed.effect (unharmed : layout.Unharmed mapping original stored cut)
    (sound : layout.Sound tolerated) {operation : Vm.Operation}
    (effect : Vm.Effect operation layout moved) (alone : moved.Alone mapping)
    (legible : ∀ index, index < mapping.segment.fileLength → mapping.Cuts moved.files index →
      cut index)
    (stays : ¬operation.Replaces mapping.segment.file) :
    moved.Unharmed mapping original stored cut := by
  cases effect with
  | moves _ path => exact unharmed.moves sound path
  | brings page frame middle _ path arrival => exact unharmed.brings sound path arrival
  | loses ended _ path => exact unharmed.shrinks sound path
  | spawns process => exact unharmed.alter rfl unharmed.alone unharmed.framed
  | maps other fresh => exact unharmed.extend sound fresh alone
  | refiles file channel named =>
      refine unharmed.refile ?_ legible
      rintro rfl
      exact named.file_eq stays

theorem unharmed_extend (unspared : ¬mapping.Spares) (alone : (layout.extend mapping).Alone mapping)
    (legible : ∀ index, index < mapping.segment.fileLength → mapping.Cuts layout.files index →
      cut index) (bytes : layout.fileBytes mapping = original) :
    (layout.extend mapping).Unharmed mapping original stored cut := by
  subst bytes
  refine ⟨unspared, alone, legible, rfl, fun _ _ => rfl, fun _ _ _ => .inl rfl, ?_⟩
  rintro index frame small _ _ ⟨_, entry, found, _, resident⟩
  rw [extend_entry, if_pos ⟨rfl, Mapping.contains_bytePage small⟩] at found
  cases found
  cases resident

end Layout

namespace Vm

variable {vm after : Vm arch} {mapping : Mapping} {original : Bytes} {stored cut : Nat → Prop}

/-- A byte of the region is copied to by an operation with this answer. -/
def Stores (vm : Vm arch) (mapping : Mapping) (index : Nat) : Operation → Answer → Prop
  | .copyToUser process address _ _, .stored outcome =>
    vm.mappings.get? mapping.id = some mapping ∧
      mapping.Meets process address outcome.copied index
  | _, _ => False

instance (vm : Vm arch) (mapping : Mapping) : Decidable (vm.layout.Alone mapping) :=
  decidable_of_iff (∀ known ∈ vm.mappings.mappings.toList,
      known.2.segment.file = mapping.segment.file → known.2 = mapping) <| by
    simp only [Prod.forall, Std.ExtTreeMap.mem_toList_iff_getElem?_eq_some]
    exact Iff.rfl

/-- A copy into user memory stores to no bytes but those it transfers. -/
theorem copyToUser_harmless (unharmed : vm.layout.Unharmed mapping original stored cut)
    (aligned : mapping.segment.address.offset = 0) (consistent : vm.Consistent tolerated)
    (process : ProcessId) (address : VirtualAddress) (data : Bytes)
    (stackPointer : VirtualAddress) :
    (vm.copyToUser process address data stackPointer).Satisfies tolerated
      fun (outcome, after) => after.layout.Unharmed mapping original
        (fun index => stored index ∨ vm.layout.mapping mapping.id = some mapping ∧
          mapping.Meets process address outcome.copied index) cut := by
  unfold copyToUser
  split
  · refine .mono (writePieces_satisfies
      (fun start _ now => now.layout.mapping = vm.layout.mapping ∧
        now.layout.Unharmed mapping original (fun index => stored index ∨
          vm.layout.mapping mapping.id = some mapping ∧
            mapping.Meets process address start index) cut)
      (fun count last => last.layout.Unharmed mapping original (fun index => stored index ∨
          vm.layout.mapping mapping.id = some mapping ∧
            mapping.Meets process address count index) cut)
      ?_ ?_ (fun _ holds => holds.2) (RangePiece.tiles_ofRange address data.size) consistent
      ⟨rfl, unharmed.mono (fun _ => .inl) fun _ lost => lost⟩) fun _ h => h.2.2
    · rintro start piece rest now after consistent ⟨mappings, holds⟩ place fits within _
        ⟨middle, frame, reach, grants, layout⟩
      have sound : now.layout.Sound tolerated := consistent.tenants.sound _
      have size : (data.extract start (start + piece.length)).size = piece.length := by
        rw [Array.size_extract]
        omega
      have mappings' : middle.mapping = vm.layout.mapping :=
        (Layout.mapping_of_reach reach).trans mappings
      rw [layout]
      refine ⟨mappings', (holds.reach sound reach).write (sound.reach reach) grants ?_ ?_⟩
      · rintro index (before | ⟨live, own, above, below⟩)
        · exact .inl before
        · exact .inr ⟨live, own, above, by omega⟩
      · intro index live covered
        rw [size] at covered
        obtain ⟨own, above, below⟩ := (Mapping.covered_iff aligned fits).mp covered
        rw [mappings'] at live
        exact .inr ⟨live, own, by omega, by omega⟩
    · rintro start piece rest now after cause consistent ⟨_, holds⟩ _ _ path
      exact holds.moves (consistent.tenants.sound _) path
  · exact .pure (unharmed.mono (fun _ => .inl) fun _ lost => lost)

theorem copyFromUser_harmless (unharmed : vm.layout.Unharmed mapping original stored cut)
    (consistent : vm.Consistent tolerated) (process : ProcessId) (address : VirtualAddress)
    (buffer : Bytes) (stackPointer : VirtualAddress) :
    (vm.copyFromUser process address buffer stackPointer).Satisfies tolerated
      fun (_, _, after) => after.layout.Unharmed mapping original stored cut := by
  unfold copyFromUser
  split
  · refine .mono (readPieces_satisfies
      (fun _ _ _ now => now.layout.Unharmed mapping original stored cut)
      (fun _ _ last => last.layout.Unharmed mapping original stored cut)
      ?_ ?_ (fun _ _ holds => holds) rfl (RangePiece.tiles_ofRange address buffer.size) consistent
      unharmed) fun _ h => h.2.2
    · rintro start piece rest filled bytes now after consistent _ holds _ _ _ _ ⟨_, reach, _⟩
      exact holds.reach (consistent.tenants.sound _) reach
    · rintro start piece rest filled now after cause consistent holds _ path
      exact holds.moves (consistent.tenants.sound _) path
  · exact .pure unharmed

/-- A state after the creation of a mapping, while no other is of its file, with the bytes of
the region that have been copied to and those that a read may have been cut short of. -/
inductive Lone (mapping : Mapping) (original : Bytes) :
    Vm arch → (Nat → Prop) → (Nat → Prop) → Prop
  | created {vm after : Vm arch} {operation : Operation} (reachable : Reachable vm)
      (yields : (vm.step operation).Yields (.mapping mapping.id, after))
      (live : after.mappings.get? mapping.id = some mapping) (alone : after.layout.Alone mapping)
      (contents : (after.files.get mapping.segment.file).file.contents = original) :
      Lone mapping original after (fun _ => False) (mapping.Cuts after.files)
  | step {vm after : Vm arch} {stored cut : Nat → Prop} {operation : Operation} {answer : Answer}
      (lone : Lone mapping original vm stored cut)
      (stays : ¬operation.Replaces mapping.segment.file)
      (yields : (vm.step operation).Yields (answer, after)) (alone : after.layout.Alone mapping) :
      Lone mapping original after
        (fun index => stored index ∨ vm.Stores mapping index operation answer)
        (fun index => cut index ∨ mapping.Cuts after.files index)

theorem Lone.reachable (lone : Lone mapping original vm stored cut) : Reachable vm := by
  induction lone with
  | created reachable yields => exact .step reachable yields
  | step lone stays yields alone ih => exact .step ih yields

theorem extends_of_yields (consistent : vm.Consistent fun _ => True) {operation : Operation}
    (yields : (vm.step operation).Yields (.mapping mapping.id, after))
    (live : after.mappings.get? mapping.id = some mapping) :
    mapping.segment.address.offset = 0 ∧ after.layout = vm.layout.extend mapping := by
  obtain ⟨made, named, aligned, layout⟩ := created_of_yields consistent yields
  have found : after.layout.mapping mapping.id = some mapping := live
  rw [layout, Layout.extend_mapping, if_pos named.symm] at found
  cases found
  exact ⟨aligned, layout⟩

theorem Lone.aligned (lone : Lone mapping original vm stored cut) :
    mapping.segment.address.offset = 0 := by
  induction lone with
  | created reachable yields live => exact (extends_of_yields reachable.consistent yields live).1
  | step lone stays yields alone ih => exact ih

theorem Lone.unharmed (lone : Lone mapping original vm stored cut) (unspared : ¬mapping.Spares) :
    vm.layout.Unharmed mapping original stored cut := by
  induction lone with
  | @created vm after operation reachable yields live alone contents =>
      have layout := (extends_of_yields reachable.consistent yields live).2
      have files : after.files = vm.files := congrArg Layout.files layout
      rw [files] at contents ⊢
      rw [layout] at alone ⊢
      exact Layout.unharmed_extend unspared alone (fun _ _ cuts => cuts) contents
  | @step vm after stored cut operation answer lone stays yields alone ih =>
      have consistent := lone.reachable.consistent
      have sound : vm.layout.Sound fun _ => True := consistent.tenants.sound _
      have wider : vm.layout.Unharmed mapping original stored
          fun index => cut index ∨ mapping.Cuts after.files index :=
        ih.mono (fun _ h => h) fun _ => .inl
      cases course_of_yields consistent yields with
      | stored process address data stackPointer outcome copied =>
          exact (copyToUser_harmless wider lone.aligned consistent process address data
            stackPointer).of_yields copied
      | fetched process address buffer stackPointer outcome filled copied =>
          exact ((copyFromUser_harmless wider consistent process address buffer
            stackPointer).of_yields copied).mono (fun _ => .inl) fun _ lost => lost
      | other _ _ quiet effect =>
          exact (wider.effect sound effect alone (fun _ _ => .inr) stays).mono (fun _ => .inl)
            fun _ lost => lost

/-- While a writable mapping has its file to itself, and after it, the file's bytes are as
before the mapping, however short transfers fall, but for bytes that have been copied to and
bytes that a read has been cut short of, which may have become zero. -/
theorem Lone.preserves (lone : Lone mapping original vm stored cut)
    (writable : mapping.segment.writable = true) (shared : mapping.segment.static = false) :
    (vm.files.get mapping.segment.file).file.size = original.size ∧
      ∀ i, (vm.files.get mapping.segment.file).file.contents[i]? = original[i]? ∨
        ∃ index, index < mapping.segment.fileLength ∧ i = mapping.segment.offset + index ∧
          (stored index ∨
            cut index ∧ (vm.files.get mapping.segment.file).file.contents[i]? = some 0) := by
  have unspared : ¬mapping.Spares := by simp [Mapping.Spares, writable, shared]
  have unharmed := lone.unharmed unspared
  refine ⟨unharmed.size, fun i => ?_⟩
  by_cases inside : ∃ index, index < mapping.segment.fileLength ∧
      i = mapping.segment.offset + index
  · obtain ⟨index, small, rfl⟩ := inside
    by_cases kept : stored index
    · exact .inr ⟨index, small, rfl, .inl kept⟩
    · obtain same | lost := unharmed.filed index small kept
      · exact .inl same
      · exact .inr ⟨index, small, rfl, .inr lost⟩
  · exact .inl (unharmed.outside i fun index small same => inside ⟨index, small, same⟩)

/-- A machine passes a test after a byte has been copied to the first of two mapped bytes and
the mapping destroyed, while transfers of the file are limited. -/
def storesUnder (read write : Option Nat) (test : Vm .scaleModel → Bool) : Bool :=
  (oneFrame.step (.createProcess ⟨1⟩)).passes fun (_, vm) =>
    ((vm.setTransferCaps ⟨0⟩ read write).mapSegment ⟨1⟩ twoBytes.segment).passes
      fun (result, vm) => result.toOption == some ⟨1⟩ &&
        decide (vm.mappings.get? ⟨1⟩ = some twoBytes) && decide (vm.layout.Alone twoBytes) &&
        (vm.files.get ⟨0⟩).file.contents == #[1, 2, 3] && (vm.files.get ⟨0⟩).readCap == read &&
        (vm.copyToUser ⟨1⟩ ⟨0x1000⟩ #[9] ⟨0⟩).passes fun (outcome, vm) =>
          outcome.copied == 1 && decide (vm.layout.Alone twoBytes) &&
          (vm.files.get ⟨0⟩).readCap == read &&
          (vm.step (.destroyMapping ⟨1⟩ ⟨1⟩)).passes fun (_, vm) =>
            decide (vm.layout.Alone twoBytes) && (vm.files.get ⟨0⟩).readCap == read && test vm

theorem lone_of_storesUnder {read write : Option Nat} {test : Vm .scaleModel → Bool}
    (passes : storesUnder read write test = true) :
    ∃ (vm : Vm .scaleModel) (stored cut : Nat → Prop), Lone twoBytes #[1, 2, 3] vm stored cut ∧
      ¬stored 1 ∧ (cut 1 → ∃ limit, read = some limit ∧ limit ≤ 1) ∧ test vm = true := by
  unfold storesUnder at passes
  simp only [Run.passes_iff, Bool.and_eq_true, Prod.exists, beq_iff_eq,
    decide_eq_true_eq] at passes
  obtain ⟨_, started, start, result, created, accepted, ⟨⟨⟨⟨named, live⟩, alone⟩, contents⟩, cap⟩,
    outcome, copied, written, ⟨⟨one, alone'⟩, cap'⟩, answer, ended, destroyed, ⟨alone'', cap''⟩,
    passed⟩ := passes
  have limit : (started.step (.setTransferCaps ⟨0⟩ read write)).Yields
      (.done, started.setTransferCaps ⟨0⟩ read write) := rfl
  have create : ((started.setTransferCaps ⟨0⟩ read write).step
      (.mapSegment ⟨1⟩ twoBytes.segment)).Yields (.mapping ⟨1⟩, created) := by
    cases result with
    | error cause => cases named
    | ok id =>
        cases named
        exact Run.yields_bind.mpr ⟨_, accepted, rfl⟩
  have store : (created.step (.copyToUser ⟨1⟩ ⟨0x1000⟩ #[9] ⟨0⟩)).Yields (.stored outcome, copied) :=
    Run.yields_bind.mpr ⟨_, written, rfl⟩
  have lone : Lone twoBytes #[1, 2, 3] ended _ _ :=
    ((Lone.created (.step (.step (.boot oneFrame_booted) start) limit) create live alone
      contents).step id store alone').step id destroyed alone''
  refine ⟨ended, _, _, lone, ?_, ?_, passed⟩
  · rintro ((before | ⟨_, _, _, below⟩) | other)
    · exact before
    · rw [one] at below
      change 0x1000 + 1 < 0x1000 + 1 at below
      omega
    · exact other
  · rintro ((⟨limit, here, small⟩ | ⟨limit, here, small⟩) | ⟨limit, here, small⟩)
    · exact ⟨limit, cap.symm.trans here, small⟩
    · exact ⟨limit, cap'.symm.trans here, small⟩
    · exact ⟨limit, cap''.symm.trans here, small⟩

/-- A byte that is not copied to stays when the file takes only the first of two bytes that are
written back. -/
theorem preserves_shortWrite : ∃ (vm : Vm .scaleModel) (stored cut : Nat → Prop),
    Lone twoBytes #[1, 2, 3] vm stored cut ∧ twoBytes.segment.writable = true ∧
      twoBytes.segment.static = false ∧ ¬stored 1 ∧ ¬cut 1 ∧
      (vm.files.get ⟨0⟩).file.contents[1]? = some 9 ∧
      (vm.files.get ⟨0⟩).file.contents[2]? = some 3 := by
  have passes : storesUnder none (some 1)
      (fun vm => (vm.files.get ⟨0⟩).file.contents[1]? == some 9) = true := by
    decide +kernel
  obtain ⟨vm, stored, cut, lone, kept, cuts, nine⟩ := lone_of_storesUnder passes
  have whole : ¬cut 1 := fun lost => by simpa using cuts lost
  refine ⟨vm, stored, cut, lone, rfl, rfl, kept, whole, by simpa using nine, ?_⟩
  obtain same | ⟨index, _, place, changed⟩ := (lone.preserves rfl rfl).2 2
  · exact same
  · obtain rfl : index = 1 := by
      change 2 = 1 + index at place
      omega
    obtain now | ⟨lost, _⟩ := changed
    · exact absurd now kept
    · exact absurd lost whole

/-- A byte that no process has copied to is lost: the read of its page stops before it, and the
zero that the frame has there is written back. -/
theorem zero_written_back : ¬∀ (mapping : Mapping) (original : Bytes) (vm : Vm .scaleModel)
    (stored cut : Nat → Prop), Lone mapping original vm stored cut →
      mapping.segment.writable = true → mapping.segment.static = false →
      ∀ index, index < mapping.segment.fileLength → ¬stored index →
        (vm.files.get mapping.segment.file).file.contents[mapping.segment.offset + index]? =
          original[mapping.segment.offset + index]? := by
  intro preserved
  have passes : storesUnder (some 1) none
      (fun vm => (vm.files.get ⟨0⟩).file.contents[2]? == some 0) = true := by
    decide +kernel
  obtain ⟨vm, stored, cut, lone, kept, _, zero⟩ := lone_of_storesUnder passes
  have three := preserved twoBytes _ vm stored cut lone rfl rfl 1 (by decide) kept
  change (vm.files.get ⟨0⟩).file.contents[2]? = some 3 at three
  rw [three] at zero
  exact absurd zero (by decide)

end Vm
end DemandPaging
