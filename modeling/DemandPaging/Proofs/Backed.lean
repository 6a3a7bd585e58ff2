import DemandPaging.Proofs.Files
import DemandPaging.Proofs.Reachable

/-!
Pages of mapped files. A byte of a writable mapping is in the frame of its page or in the
file, and in the file whenever the page is clean; what operations do to pages keeps this, so
that a page can be dropped when it is clean and is lost nowhere else. The file of a mapping
that is read-only or static is not written at all.
-/

namespace DemandPaging

variable {arch : Architecture} {tolerated : Violation → Prop}

namespace Mapping

variable {mapping : Mapping}

def userPage (mapping : Mapping) (index : Nat) : UserPage :=
  (mapping.owner, mapping.bytePage index)

theorem contains_bytePage {index : Nat} (small : index < mapping.segment.fileLength) :
    mapping.contains (mapping.bytePage index) = true := by
  unfold contains bytePage pageCount pagesFor
  simp only [Bool.and_eq_true, decide_eq_true_eq, pageSize]
  omega

end Mapping

namespace Layout

variable {layout moved : Layout} {page : UserPage} {entry : PageEntry} {mapping : Mapping}
  {original : Bytes} {index : Nat} {byte : UInt8} {image : Nat → UInt8}

def fileBytes (layout : Layout) (mapping : Mapping) : Bytes :=
  (layout.files.get mapping.segment.file).file.contents

/-- A writable mapping has its file to itself, and the file is as it was outside of the part
behind the mapping. -/
structure Intact (mapping : Mapping) (original : Bytes) (layout : Layout) : Prop where
  unspared : ¬mapping.Spares
  fits : mapping.segment.offset + mapping.segment.fileLength ≤ original.size
  self : ∀ other, layout.mapping mapping.id = some other → other = mapping
  alone : ∀ id other, layout.mapping id = some other →
    other.segment.file = mapping.segment.file → other = mapping
  uncut : (layout.files.get mapping.segment.file).Uncut
  size : (layout.fileBytes mapping).size = original.size
  outside : ∀ i, (∀ index, index < mapping.segment.fileLength →
    i ≠ mapping.segment.offset + index) → (layout.fileBytes mapping)[i]? = original[i]?

/-- A byte of a mapping is in the frame of its page, and in the file unless that page is
dirty. -/
structure Shows (mapping : Mapping) (index : Nat) (byte : UInt8) (layout : Layout) : Prop where
  named : ∀ entry, layout.entry (mapping.userPage index) = some entry →
    entry.mapping = some mapping.id
  framed : ∀ frame, layout.Backs (mapping.userPage index) (.frame frame) →
    (layout.frame frame)[index % pageSize]? = some byte
  filed : (∀ frame, layout.Backs (mapping.userPage index) (.frame frame) →
      layout.dirty (mapping.userPage index) = false) →
    (layout.fileBytes mapping)[mapping.segment.offset + index]? = some byte

/-- What the region holds is `image`, byte by byte. -/
structure Backed (mapping : Mapping) (original : Bytes) (image : Nat → UInt8)
    (layout : Layout) : Prop where
  intact : layout.Intact mapping original
  shows : ∀ index, index < mapping.segment.fileLength → layout.Shows mapping index (image index)

theorem place_dirty (layout : Layout) (page other : UserPage) (entry : Option PageEntry) :
    (layout.place page entry).dirty other = if other = page then false else layout.dirty other :=
  Function.update_apply layout.dirty page false other

theorem Intact.congr (intact : layout.Intact mapping original)
    (files : moved.files = layout.files) (mappings : moved.mapping = layout.mapping) :
    moved.Intact mapping original := by
  obtain ⟨unspared, fits, self, alone, uncut, size, outside⟩ := intact
  unfold fileBytes at size outside
  refine ⟨unspared, fits, ?_, ?_, ?_, ?_, ?_⟩
  · rwa [mappings]
  · rwa [mappings]
  · rwa [files]
  · unfold fileBytes
    rwa [files]
  · unfold fileBytes
    rwa [files]

theorem Intact.inside (intact : layout.Intact mapping original)
    (small : index < mapping.segment.fileLength) :
    mapping.segment.offset + index < (layout.fileBytes mapping).size := by
  rw [intact.size]
  have := intact.fits
  omega

theorem Shows.elsewhere (shows : layout.Shows mapping index byte)
    (apart : mapping.userPage index ≠ page) (placed : Option PageEntry) :
    (layout.place page placed).Shows mapping index byte := by
  refine ⟨?_, ?_, ?_⟩
  · rw [place_entry, if_neg apart]
    exact shows.named
  · intro frame backs
    rw [backs_place apart] at backs
    exact shows.framed frame backs
  · intro clean
    refine shows.filed fun frame backs => ?_
    have := clean frame ((backs_place apart).mpr backs)
    rwa [place_dirty, if_neg apart] at this

theorem Shows.leave {placed : Option PageEntry}
    (named : ∀ entry, placed = some entry → entry.mapping = some mapping.id)
    (away : ∀ entry frame, placed = some entry → entry.backing ≠ .frame frame)
    (bytes : (layout.fileBytes mapping)[mapping.segment.offset + index]? = some byte) :
    (layout.place (mapping.userPage index) placed).Shows mapping index byte := by
  refine ⟨?_, ?_, fun _ => bytes⟩
  · intro entry found
    rw [place_entry, if_pos rfl] at found
    exact named entry found
  · rintro frame ⟨entry, found, resident⟩
    rw [place_entry, if_pos rfl] at found
    exact absurd resident (away entry frame found)

theorem Shows.fillFrame (shows : layout.Shows mapping index byte) {frame : FrameNumber}
    (idle : ∀ page, ¬layout.Backs page (.frame frame)) (contents : Page) :
    (layout.fillFrame frame contents).Shows mapping index byte := by
  refine ⟨shows.named, fun other backs => ?_, shows.filed⟩
  have differs : other ≠ frame := by
    rintro rfl
    exact idle _ backs
  change (Function.update layout.frame frame contents other)[index % pageSize]? = some byte
  rw [Function.update_of_ne differs]
  exact shows.framed other backs

theorem Shows.saved (shows : layout.Shows mapping index byte)
    (intact : layout.Intact mapping original) (small : index < mapping.segment.fileLength)
    {frame : FrameNumber} (backs : layout.Backs (mapping.userPage index) (.frame frame))
    (saved : layout.dirty (mapping.userPage index) = true → ∃ files result,
      mapping.writePage files (mapping.bytePage index) (layout.frame frame) =
        .ok (result, layout.files)) :
    (layout.fileBytes mapping)[mapping.segment.offset + index]? = some byte := by
  cases dirty : layout.dirty (mapping.userPage index) with
  | false => exact shows.filed fun _ _ => dirty
  | true =>
      obtain ⟨files, result, written⟩ := saved dirty
      have inside := intact.inside small
      unfold fileBytes at inside ⊢
      rw [Mapping.size_writePage written] at inside
      have uncut := (Mapping.writePage_uncut written).mp intact.uncut
      rw [Mapping.writePage_own written intact.unspared uncut small rfl inside]
      exact shows.framed frame backs

theorem Intact.writeBack (intact : layout.Intact mapping original)
    {id : MappingId} {known : Mapping} {contents : Page} {number : PageNumber}
    {result : Except VmError Unit} {files : FileStore} (live : layout.mapping id = some known)
    (written : known.writePage layout.files number contents = .ok (result, files)) :
    ({ layout with files } : Layout).Intact mapping original := by
  by_cases same : known.segment.file = mapping.segment.file
  · obtain rfl := intact.alone id known live same
    refine ⟨intact.unspared, intact.fits, intact.self, intact.alone, ?_, ?_, fun i outside => ?_⟩
    · exact (Mapping.writePage_uncut written).mpr intact.uncut
    · exact (Mapping.size_writePage written).trans intact.size
    · refine (Mapping.writePage_other written intact.unspared intact.uncut ?_).trans
        (intact.outside i outside)
      exact fun index small _ => outside index small
  · have others := Mapping.writePage_get written (Ne.symm same)
    refine ⟨intact.unspared, intact.fits, intact.self, intact.alone, ?_, ?_, ?_⟩
    · change (files.get mapping.segment.file).Uncut
      rw [others]
      exact intact.uncut
    · unfold fileBytes
      rw [others]
      exact intact.size
    · unfold fileBytes
      rw [others]
      exact intact.outside

theorem Shows.writeBack (shows : layout.Shows mapping index byte)
    (intact : layout.Intact mapping original) (sound : layout.Sound tolerated)
    (small : index < mapping.segment.fileLength) {frame : FrameNumber} {id : MappingId}
    {known : Mapping} {result : Except VmError Unit} {files : FileStore}
    (found : layout.entry page = some entry) (resident : entry.backing = .frame frame)
    (belongs : entry.mapping = some id) (live : layout.mapping id = some known)
    (written : known.writePage layout.files page.2 (layout.frame frame) = .ok (result, files)) :
    ({ layout with files } : Layout).Shows mapping index byte := by
  refine ⟨shows.named, shows.framed, fun clean => ?_⟩
  have before : (layout.fileBytes mapping)[mapping.segment.offset + index]? = some byte :=
    shows.filed clean
  by_cases same : known.segment.file = mapping.segment.file
  · obtain rfl := intact.alone id known live same
    by_cases here : known.bytePage index = page.2
    · have place : known.userPage index = page := by
        obtain ⟨again, live', owner, _⟩ := (sound.admits page entry found).mapped id belongs
        cases live.symm.trans live'
        exact Prod.ext owner here
      have backs : layout.Backs (known.userPage index) (.frame frame) := by
        rw [place]
        exact ⟨entry, found, resident⟩
      refine (Mapping.writePage_own written intact.unspared intact.uncut small here
        (intact.inside small)).trans (shows.framed frame backs)
    · refine (Mapping.writePage_other written intact.unspared intact.uncut ?_).trans before
      intro other _ there overlap
      have : index = other := by omega
      exact here (this ▸ there)
  · unfold fileBytes at before ⊢
    rwa [Mapping.writePage_get written (Ne.symm same)]

theorem Backed.shift (backed : layout.Backed mapping original image)
    (sound : layout.Sound tolerated) (step : Shift layout moved) :
    moved.Backed mapping original image := by
  obtain ⟨intact, shows⟩ := backed
  cases step with
  | scratchSlot slot contents idle =>
      refine ⟨intact.congr rfl rfl, fun index small => ?_⟩
      obtain ⟨named, framed, filed⟩ := shows index small
      exact ⟨named, framed, filed⟩
  | scratchFrame frame contents idle =>
      exact ⟨intact.congr rfl rfl, fun index small => (shows index small).fillFrame idle contents⟩
  | writeBack page entry frame id known result files found resident belongs live written =>
      exact ⟨intact.writeBack live written, fun index small =>
        (shows index small).writeBack intact sound small found resident belongs live written⟩
  | toSwap page entry frame slot found resident idle copied kept =>
      refine ⟨intact.congr rfl rfl, fun index small => (shows index small).elsewhere ?_ _⟩
      -- the mapping's own pages go to the file
      rintro rfl
      have belongs := (shows index small).named entry found
      obtain ⟨known, live, _⟩ := (sound.admits _ entry found).mapped _ belongs
      obtain rfl := intact.self known live
      exact Mapping.evictsToFile_ne_false intact.unspared small rfl (kept _ _ belongs live)
  | toFile page entry frame id known found resident belongs live filed saved =>
      refine ⟨intact.congr rfl rfl, fun index small => ?_⟩
      by_cases here : mapping.userPage index = page
      · subst here
        have named := (shows index small).named entry found
        cases named.symm.trans belongs
        obtain rfl := intact.self known live
        refine Shows.leave ?_ ?_ ?_
        · rintro _ ⟨⟩
          exact named
        · rintro _ other ⟨⟩ ⟨⟩
        · refine (shows index small).saved intact small ⟨entry, found, resident⟩ fun dirty => ?_
          obtain ⟨files, written⟩ := saved dirty
          exact ⟨files, .ok (), written⟩
      · exact (shows index small).elsewhere here _

theorem Backed.moves (backed : layout.Backed mapping original image)
    (sound : layout.Sound tolerated) (path : Relation.ReflTransGen Shift layout moved) :
    moved.Backed mapping original image := by
  induction path with
  | refl => exact backed
  | tail path step ih => exact ih.shift (sound.moves path) step

theorem Backed.shrink {ended : MappingId → Prop} (backed : layout.Backed mapping original image)
    (sound : layout.Sound tolerated) (step : Shrink ended layout moved) :
    moved.Backed mapping original image := by
  obtain ⟨intact, shows⟩ := backed
  cases step with
  | shift step => exact Backed.shift ⟨intact, shows⟩ sound step
  | leave =>
      refine ⟨intact.congr rfl rfl, fun index small => ?_⟩
      obtain ⟨named, framed, filed⟩ := shows index small
      exact ⟨named, framed, filed⟩
  | unmap id ending unused =>
      refine ⟨⟨intact.unspared, intact.fits, ?_, ?_, intact.uncut, intact.size, intact.outside⟩,
        fun index small => ?_⟩
      · exact fun known live => intact.self known (mapping_of_unmap live)
      · exact fun other known live => intact.alone other known (mapping_of_unmap live)
      · obtain ⟨named, framed, filed⟩ := shows index small
        exact ⟨named, framed, filed⟩
  | remove page entry found belongs saved =>
      refine ⟨intact.congr rfl rfl, fun index small => ?_⟩
      by_cases here : mapping.userPage index = page
      · subst here
        refine Shows.leave (by rintro _ ⟨⟩) (by rintro _ _ ⟨⟩) ?_
        by_cases away : ∃ frame, layout.Backs (mapping.userPage index) (.frame frame)
        · obtain ⟨frame, entry', found', resident⟩ := away
          cases found.symm.trans found'
          have named := (shows index small).named entry found
          obtain ⟨known, live, _⟩ := (sound.admits _ entry found).mapped _ named
          obtain rfl := intact.self known live
          exact (shows index small).saved intact small ⟨entry, found, resident⟩
            (saved frame _ _ resident named live)
        · exact (shows index small).filed fun frame backs => absurd ⟨frame, backs⟩ away
      · exact (shows index small).elsewhere here _

theorem Backed.shrinks {ended : MappingId → Prop} (backed : layout.Backed mapping original image)
    (sound : layout.Sound tolerated) (path : Relation.ReflTransGen (Shrink ended) layout moved) :
    moved.Backed mapping original image := by
  induction path with
  | refl => exact backed
  | tail path step ih => exact ih.shrink (sound.shrinks path) step

/-- Every byte of the region that is of the file has an entry for its page. -/
def Covers (layout : Layout) (mapping : Mapping) : Prop :=
  ∀ index, index < mapping.segment.fileLength → (layout.entry (mapping.userPage index)).isSome

theorem Covers.of_roles (covers : layout.Covers mapping)
    (roles : ∀ page, (layout.entry page).isSome → moved.role page = layout.role page) :
    moved.Covers mapping := by
  intro index small
  have known := covers index small
  rw [← role_isSome, roles _ known, role_isSome]
  exact known

/-- A page comes to a frame that backs none. If it is one of the mapping's, it brings what the
file has there. -/
theorem Backed.settle (backed : layout.Backed mapping original image) {frame : FrameNumber}
    (idle : ∀ other, ¬layout.Backs other (.frame frame)) {contents : Page} {arrived : PageEntry}
    (resident : arrived.backing = .frame frame)
    (own : ∀ index, index < mapping.segment.fileLength → mapping.userPage index = page →
      arrived.mapping = some mapping.id ∧
      contents[index % pageSize]? = some (image index) ∧
      (layout.fileBytes mapping)[mapping.segment.offset + index]? = some (image index)) :
    ((layout.fillFrame frame contents).place page (some arrived)).Backed mapping original
      image := by
  obtain ⟨intact, shows⟩ := backed
  refine ⟨intact.congr rfl rfl, fun index small => ?_⟩
  by_cases here : mapping.userPage index = page
  · obtain ⟨named, byte, bytes⟩ := own index small here
    subst here
    refine ⟨?_, ?_, fun _ => bytes⟩
    · intro entry found
      rw [place_entry, if_pos rfl] at found
      cases found
      exact named
    · intro other backs
      rw [backs_place_self, resident] at backs
      cases backs
      change (Function.update layout.frame frame contents frame)[index % pageSize]? = _
      rw [Function.update_self]
      exact byte
  · exact ((shows index small).fillFrame idle contents).elsewhere here _

theorem Backed.arrive (backed : layout.Backed mapping original image)
    (sound : layout.Sound tolerated) (covers : layout.Covers mapping) {frame : FrameNumber}
    (arrival : Arrival page frame layout moved) : moved.Backed mapping original image := by
  have intact := backed.intact
  have shows := backed.shows
  cases arrival with
  | fresh writable idle new =>
      refine backed.settle idle rfl fun index small here => ?_
      have known := covers index small
      rw [here, new] at known
      cases known
  | swapped entry slot idle found source =>
      refine backed.settle idle rfl ?_
      -- the mapping's own pages are never in swap
      rintro index small rfl
      have named := (shows index small).named entry found
      have admits := sound.admits _ entry found
      obtain ⟨known, live, _⟩ := admits.mapped _ named
      obtain rfl := intact.self known live
      exact absurd (admits.kept slot _ _ source named live)
        (Mapping.evictsToFile_ne_false intact.unspared small rfl)
  | filed entry id known dest contents idle found source live read =>
      refine backed.settle idle rfl ?_
      rintro index small rfl
      have named := (shows index small).named entry found
      cases named.symm.trans ((sound.admits _ entry found).filed id source)
      obtain rfl := intact.self known live
      have away : ∀ other, ¬layout.Backs (known.userPage index) (.frame other) := by
        rintro other ⟨again, found', resident⟩
        cases found.symm.trans found'
        cases source.symm.trans resident
      have bytes := (shows index small).filed fun other backs => absurd backs (away other)
      exact ⟨named, (Mapping.getElem?_readPage read intact.uncut small rfl
        (intact.inside small)).trans bytes, bytes⟩

/-- What is known between operations: the bytes are backed, and none of the region's pages is
lost. -/
structure Keeps (mapping : Mapping) (original : Bytes) (image : Nat → UInt8)
    (layout : Layout) : Prop where
  backed : layout.Backed mapping original image
  covers : layout.Covers mapping

theorem Keeps.moves (keeps : layout.Keeps mapping original image)
    (sound : layout.Sound tolerated) (path : Relation.ReflTransGen Shift layout moved) :
    moved.Keeps mapping original image :=
  ⟨keeps.backed.moves sound path, keeps.covers.of_roles fun page _ => role_of_moves path page⟩

theorem Keeps.brings (keeps : layout.Keeps mapping original image)
    (sound : layout.Sound tolerated) {middle : Layout} {frame : FrameNumber}
    (path : Relation.ReflTransGen Shift layout middle)
    (arrival : Arrival page frame middle moved) : moved.Keeps mapping original image := by
  obtain ⟨backed, covers⟩ := keeps.moves sound path
  exact ⟨backed.arrive (sound.moves path) covers arrival,
    covers.of_roles fun other known => role_of_arrival arrival known⟩

theorem Keeps.reach (keeps : layout.Keeps mapping original image)
    (sound : layout.Sound tolerated) (reach : Reach page layout moved) :
    moved.Keeps mapping original image := by
  cases reach with
  | here => exact keeps
  | brought middle frame moved path arrival => exact keeps.brings sound path arrival

theorem Keeps.shrinks {ended : MappingId → Prop} (keeps : layout.Keeps mapping original image)
    (sound : layout.Sound tolerated) (stays : ¬ended mapping.id)
    (path : Relation.ReflTransGen (Shrink ended) layout moved) :
    moved.Keeps mapping original image := by
  induction path with
  | refl => exact keeps
  | @tail middle moved path step ih =>
      refine ⟨ih.backed.shrink (sound.shrinks path) step, ?_⟩
      cases step with
      | shift step => exact (ih.moves (sound.shrinks path) (.single step)).covers
      | leave => exact ih.covers
      | unmap => exact ih.covers
      | remove page entry found belongs saved =>
          intro index small
          rw [place_entry, if_neg]
          · exact ih.covers index small
          · rintro rfl
            exact stays (belongs _ ((ih.backed.shows index small).named entry found))

/-- Whether a byte of the region is one of `count` bytes of a page. -/
def Covered (mapping : Mapping) (page : UserPage) (start count index : Nat) : Prop :=
  mapping.userPage index = page ∧ start ≤ index % pageSize ∧ index % pageSize - start < count

theorem Keeps.write {frame : FrameNumber} {start : Nat} {source : Bytes}
    {image' : Nat → UInt8} (keeps : layout.Keeps mapping original image)
    (sound : layout.Sound tolerated) (grants : layout.Grants page frame true)
    (stored : ∀ index, Covered mapping page start source.size index →
      source[index % pageSize - start]? = some (image' index))
    (others : ∀ index, ¬Covered mapping page start source.size index →
      image' index = image index) :
    ((layout.use page true).fillFrame frame
      ((layout.frame frame).overwrite start source)).Keeps mapping original image' := by
  obtain ⟨⟨intact, shows⟩, covers⟩ := keeps
  obtain ⟨entry, found, resident, _⟩ := grants
  refine ⟨⟨intact.congr rfl rfl, fun index small => ?_⟩, covers⟩
  obtain ⟨named, framed, filed⟩ := shows index small
  by_cases here : mapping.userPage index = page
  · refine ⟨named, ?_, fun clean => ?_⟩
    · subst here
      rintro other ⟨again, found', resident'⟩
      cases found.symm.trans found'
      cases resident.symm.trans resident'
      change (Function.update layout.frame frame _ frame)[index % pageSize]? = _
      rw [Function.update_self, Page.getElem?_overwrite _ _ _ (Nat.mod_lt _ (by decide))]
      split
      · rename_i inside
        exact stored index ⟨rfl, inside⟩
      · rename_i outside
        rw [others index fun inside => outside inside.2]
        exact framed frame ⟨entry, found, resident⟩
    · have backs : layout.Backs (mapping.userPage index) (.frame frame) := by
        rw [here]
        exact ⟨entry, found, resident⟩
      have := clean frame backs
      change (layout.use page true).dirty _ = false at this
      rw [use_dirty, if_pos here] at this
      cases this
  · rw [others index fun inside => here inside.1]
    refine ⟨named, ?_, fun clean => ?_⟩
    · intro other backs
      have differs : other ≠ frame := by
        rintro rfl
        exact here (sound.unique (.frame other) trivial ⟨entry, found, resident⟩ backs)
      change (Function.update layout.frame frame _ other)[index % pageSize]? = _
      rw [Function.update_of_ne differs]
      exact framed other backs
    · refine filed fun other backs => ?_
      have := clean other backs
      change (layout.use page true).dirty _ = false at this
      rwa [use_dirty, if_neg here] at this

theorem Keeps.spawn (keeps : layout.Keeps mapping original image) (process : ProcessId) :
    (layout.spawn process).Keeps mapping original image := by
  obtain ⟨⟨intact, shows⟩, covers⟩ := keeps
  refine ⟨⟨intact.congr rfl rfl, fun index small => ?_⟩, covers⟩
  obtain ⟨named, framed, filed⟩ := shows index small
  exact ⟨named, framed, filed⟩

theorem Covers.extend_entry (covers : layout.Covers mapping) {other : Mapping}
    (free : ∀ page, other.contains page → layout.entry (other.owner, page) = none)
    {index : Nat} (small : index < mapping.segment.fileLength) :
    (layout.extend other).entry (mapping.userPage index) =
      layout.entry (mapping.userPage index) := by
  rw [Layout.extend_entry, if_neg]
  rintro ⟨owner, inside⟩
  have known := covers index small
  rw [show mapping.userPage index = (other.owner, _) from Prod.ext owner rfl,
    free _ inside] at known
  cases known

theorem Keeps.extend (keeps : layout.Keeps mapping original image) {other : Mapping}
    (free : ∀ page, other.contains page → layout.entry (other.owner, page) = none)
    (live : (layout.extend other).mapping mapping.id = some mapping)
    (alone : ∀ id another, (layout.extend other).mapping id = some another →
      another.segment.file = mapping.segment.file → another = mapping) :
    (layout.extend other).Keeps mapping original image := by
  obtain ⟨⟨intact, shows⟩, covers⟩ := keeps
  have self : ∀ known, (layout.extend other).mapping mapping.id = some known →
      known = mapping := by
    intro known again
    cases live.symm.trans again
    rfl
  refine ⟨⟨⟨intact.unspared, intact.fits, self, alone, intact.uncut, intact.size,
    intact.outside⟩, fun index small => ?_⟩, fun index small => ?_⟩
  · obtain ⟨named, framed, filed⟩ := shows index small
    refine ⟨?_, ?_, ?_⟩
    · rwa [covers.extend_entry free small]
    · unfold Backs
      rwa [covers.extend_entry free small]
    · unfold Backs
      rwa [covers.extend_entry free small]
  · rw [covers.extend_entry free small]
    exact covers index small

theorem Keeps.refile (keeps : layout.Keeps mapping original image) {file : FileId}
    {channel : FileChannel}
    (same : file = mapping.segment.file → channel.file = (layout.files.get file).file)
    (uncut : ((layout.files.set file channel).get mapping.segment.file).Uncut) :
    ({ layout with files := layout.files.set file channel } : Layout).Keeps mapping original
      image := by
  obtain ⟨⟨intact, shows⟩, covers⟩ := keeps
  have bytes : ({ layout with files := layout.files.set file channel } : Layout).fileBytes
      mapping = layout.fileBytes mapping := by
    unfold fileBytes
    dsimp only
    rw [FileStore.get_set]
    split
    · rename_i own
      rw [same own.symm, own]
    · rfl
  refine ⟨⟨⟨intact.unspared, intact.fits, intact.self, intact.alone, uncut, ?_, ?_⟩,
    fun index small => ?_⟩, covers⟩
  · rw [bytes]
    exact intact.size
  · rw [bytes]
    exact intact.outside
  · obtain ⟨named, framed, filed⟩ := shows index small
    refine ⟨named, framed, ?_⟩
    rw [bytes]
    exact filed

/-- An operation that is not a copy leaves the region as it is, if the mapping stays and still
has the file to itself. -/
theorem Keeps.effect (keeps : layout.Keeps mapping original image)
    (sound : layout.Sound tolerated) {operation : Vm.Operation}
    (effect : Vm.Effect operation layout moved) (live : moved.mapping mapping.id = some mapping)
    (alone : ∀ id other, moved.mapping id = some other →
      other.segment.file = mapping.segment.file → other = mapping)
    (uncut : (moved.files.get mapping.segment.file).Uncut)
    (stays : ¬operation.Replaces mapping.segment.file) :
    moved.Keeps mapping original image := by
  cases effect with
  | moves _ path => exact keeps.moves sound path
  | brings page frame middle _ path arrival => exact keeps.brings sound path arrival
  | loses ended _ path ending =>
      refine keeps.shrinks sound (fun ends => ?_) path
      exact absurd (live.symm.trans (ending mapping.id ends)) (by simp)
  | spawns process dead => exact keeps.spawn process
  | maps other fresh alive free => exact keeps.extend free live alone
  | refiles file channel named =>
      refine keeps.refile ?_ uncut
      rintro rfl
      exact named.file_eq stays

/-- When the mapping is gone, the file has what the region held, and is as it was otherwise. -/
theorem Backed.contents (backed : layout.Backed mapping original image)
    (sound : layout.Sound tolerated) (gone : layout.mapping mapping.id = none) (i : Nat) :
    (layout.fileBytes mapping)[i]? =
      if mapping.segment.offset ≤ i ∧ i - mapping.segment.offset < mapping.segment.fileLength then
        some (image (i - mapping.segment.offset))
      else original[i]? := by
  obtain ⟨intact, shows⟩ := backed
  split
  · rename_i inside
    obtain ⟨named, _, filed⟩ := shows (i - mapping.segment.offset) inside.2
    rw [← filed, Nat.add_sub_cancel' inside.1]
    rintro frame ⟨entry, found, _⟩
    obtain ⟨known, live, _⟩ := (sound.admits _ entry found).mapped _ (named entry found)
    exact absurd (live.symm.trans gone) (by simp)
  · rename_i outside
    refine intact.outside i fun index small same => outside ?_
    omega

theorem Intact.keeps_extend
    (intact : (layout.extend mapping).Intact mapping original)
    (bytes : (layout.extend mapping).fileBytes mapping = original) :
    (layout.extend mapping).Keeps mapping original
      fun index => original.getD (mapping.segment.offset + index) 0 := by
  have entries : ∀ index, index < mapping.segment.fileLength →
      (layout.extend mapping).entry (mapping.userPage index) = some mapping.untouched := by
    intro index small
    rw [extend_entry, if_pos ⟨rfl, Mapping.contains_bytePage small⟩]
  refine ⟨⟨intact, fun index small => ⟨?_, ?_, fun _ => ?_⟩⟩, fun index small => ?_⟩
  · intro entry found
    cases (entries index small).symm.trans found
    rfl
  · rintro frame ⟨entry, found, resident⟩
    cases (entries index small).symm.trans found
    cases resident
  · have inside := intact.inside small
    rw [bytes] at inside ⊢
    rw [Array.getD_eq_getD_getElem?, Array.getElem?_eq_getElem inside]
    rfl
  · rw [entries index small]
    rfl

variable {middle : Layout} {file : FileId}

/-- All mappings of a file are read-only or static. -/
def Spares (layout : Layout) (file : FileId) : Prop :=
  ∀ id mapping, layout.mapping id = some mapping → mapping.segment.file = file → mapping.Spares

/-- If all mappings of a file are read-only or static they remain so, and the file stays. -/
def Leaves (file : FileId) (layout moved : Layout) : Prop :=
  layout.Spares file → moved.Spares file ∧ (moved.files.get file).file = (layout.files.get file).file

theorem Leaves.of_eq (files : moved.files = layout.files)
    (mappings : moved.mapping = layout.mapping) : layout.Leaves file moved := by
  intro spares
  unfold Spares
  rw [files, mappings]
  exact ⟨spares, rfl⟩

theorem Leaves.trans (first : Leaves file layout middle) (last : Leaves file middle moved) :
    Leaves file layout moved := by
  intro spares
  obtain ⟨spares', same⟩ := first spares
  obtain ⟨spares'', same'⟩ := last spares'
  exact ⟨spares'', same'.trans same⟩

theorem Leaves.shift (step : Shift layout moved) : Leaves file layout moved := by
  cases step with
  | scratchSlot | scratchFrame | toSwap | toFile => exact .of_eq rfl rfl
  | writeBack page entry frame id mapping result files found resident belongs live written =>
      refine fun spares => ⟨spares, ?_⟩
      obtain ⟨_, rfl⟩ | ⟨unspared, _, others⟩ := Mapping.writePage_eq_ok written
      · rfl
      · refine congrArg FileChannel.file (others file ?_)
        rintro rfl
        exact unspared (spares id mapping live rfl)

theorem Leaves.moves (path : Relation.ReflTransGen Shift layout moved) :
    Leaves file layout moved := by
  induction path with
  | refl => exact .of_eq rfl rfl
  | tail _ step ih => exact ih.trans (.shift step)

theorem Leaves.shrinks {ended : MappingId → Prop}
    (path : Relation.ReflTransGen (Shrink ended) layout moved) : Leaves file layout moved := by
  induction path with
  | refl => exact .of_eq rfl rfl
  | tail _ step ih =>
      refine ih.trans ?_
      cases step with
      | shift step => exact .shift step
      | remove | leave => exact .of_eq rfl rfl
      | unmap id ending unused =>
          exact fun spares => ⟨fun other mapping live =>
            spares other mapping (mapping_of_unmap live), rfl⟩

theorem Leaves.arrival {frame : FrameNumber} (arrival : Arrival page frame layout moved) :
    Leaves file layout moved := by
  cases arrival <;> exact .of_eq rfl rfl

theorem Leaves.reach (reach : Reach page layout moved) : Leaves file layout moved := by
  cases reach with
  | here => exact .of_eq rfl rfl
  | brought middle frame moved path arrival => exact (Leaves.moves path).trans (.arrival arrival)

theorem Spares.effect (spares : layout.Spares file) {operation : Vm.Operation}
    (effect : Vm.Effect operation layout moved) (stays : ¬operation.Replaces file) :
    (moved.files.get file).file = (layout.files.get file).file := by
  cases effect with
  | moves _ path => exact (Leaves.moves path spares).2
  | brings page frame middle _ path arrival =>
      exact ((Leaves.moves path).trans (.arrival arrival) spares).2
  | loses ended _ path => exact (Leaves.shrinks path spares).2
  | spawns | maps => rfl
  | refiles other channel named =>
      dsimp only
      rw [FileStore.get_set]
      split
      · rename_i same
        subst same
        exact named.file_eq stays
      · rfl

end Layout
end DemandPaging
