import DemandPaging.Proofs.Following
import DemandPaging.Proofs.Roles

/-!
The imprint of stored bytes: what has been stored in every page since it last came into a
frame. For most pages that is less than they hold. Of the bytes behind the file's part of a
page it is all, since such a page comes from the file, with zeros for these bytes.
-/

namespace DemandPaging

variable {arch : Architecture} {tolerated : Violation → Prop}

theorem FileChannel.size_readAt_le (channel : FileChannel) (offset length : Nat) :
    (channel.readAt offset length).size ≤ length := by
  have cut : FileChannel.capped channel.readCap length ≤ length := by
    cases channel.readCap with
    | none => exact Nat.le_refl length
    | some cap => exact Nat.min_le_left length cap
  have taken : (channel.readAt offset length).size ≤ FileChannel.capped channel.readCap length := by
    simp only [FileChannel.readAt, File.readAt, Array.size_extract]
    omega
  exact Nat.le_trans taken cut

namespace Mapping

variable {mapping : Mapping} {page : PageNumber} {offset : Nat}

/-- A byte of a page behind those that the file backs, of which there are some, in a mapping
whose changed pages go to the file. -/
structure Tail (mapping : Mapping) (page : PageNumber) (offset : Nat) : Prop where
  writable : mapping.segment.writable = true
  moving : mapping.segment.static = false
  small : offset < pageSize
  behind : ∃ range, mapping.fileRange page = .ok range ∧ 0 < range.length ∧ range.length ≤ offset

theorem Tail.contains (tail : mapping.Tail page offset) : mapping.contains page = true := by
  obtain ⟨range, found, _⟩ := tail.behind
  exact (fileRange_eq_ok found).1

theorem Tail.evictsToFile (tail : mapping.Tail page offset) :
    mapping.evictsToFile page = .ok true := by
  obtain ⟨range, found, some_bytes, _⟩ := tail.behind
  simp [Mapping.evictsToFile, tail.writable, tail.moving, found, some_bytes]

/-- When a page is read from the file, its tail is zeros. -/
theorem Tail.readPage (tail : mapping.Tail page offset) {files : FileStore} {dest contents : Page}
    (read : mapping.readPage files page dest = .ok contents) : contents[offset]? = some 0 := by
  obtain ⟨range, found, _, behind⟩ := tail.behind
  have short := (files.get mapping.segment.file).size_readAt_le range.offset range.length
  simp only [Mapping.readPage, found, Checked.ok_bind] at read
  rw [← Except.ok.inj read, Page.getElem?_clearFrom _ _ tail.small, if_neg (by omega)]

end Mapping

namespace Layout

variable {layout middle moved : Layout} {page : UserPage} {frame : FrameNumber} {offset : Nat}

theorem resident_iff : layout.resident page = true ↔ ∃ frame, layout.Backs page (.frame frame) := by
  constructor
  · intro resident
    obtain ⟨entry, found, here⟩ := (Option.any_eq_true _ _).mp resident
    obtain ⟨frame, source⟩ := Option.isSome_iff_exists.mp here
    exact ⟨frame, entry, found, PageEntry.frame?_eq_some.mp source⟩
  · intro backed
    obtain ⟨frame, entry, found, source⟩ := backed
    exact (Option.any_eq_true _ _).mpr ⟨entry, found, PageEntry.isResident_of_frame source⟩

/-- A byte in the tail of a page, for the mapping that the page's entry names. -/
def Tail (layout : Layout) (page : UserPage) (offset : Nat) : Prop :=
  ∃ writable id mapping, layout.role page = some (writable, some id) ∧
    layout.mapping id = some mapping ∧ mapping.Tail page.2 offset

theorem Tail.small (tail : layout.Tail page offset) : offset < pageSize := by
  obtain ⟨_, _, mapping, _, _, tail⟩ := tail
  exact tail.small

theorem Tail.of_role (tail : moved.Tail page offset) (role : moved.role page = layout.role page)
    (mappings : ∀ id mapping, moved.mapping id = some mapping → layout.mapping id = some mapping) :
    layout.Tail page offset := by
  obtain ⟨writable, id, mapping, belongs, live, tail⟩ := tail
  exact ⟨writable, id, mapping, role.symm.trans belongs, mappings id mapping live, tail⟩

theorem Tail.persists (tail : layout.Tail page offset) (persists : layout.Persists moved) :
    moved.Tail page offset := by
  have known : (layout.entry page).isSome := by
    obtain ⟨writable, id, mapping, belongs, _⟩ := tail
    rw [← role_isSome, belongs]
    rfl
  refine tail.of_role (persists.roles page known).symm fun id mapping live => ?_
  rwa [persists.mapping]

/-- No page comes into a frame, and those that stay in theirs keep what they hold there. -/
def Fades (layout moved : Layout) : Prop :=
  ∀ page frame, moved.Backs page (.frame frame) → layout.Backs page (.frame frame) ∧
    moved.frame frame = layout.frame frame ∧ ∀ offset, moved.Tail page offset →
      layout.Tail page offset

theorem Fades.refl (layout : Layout) : layout.Fades layout :=
  fun _ _ backs => ⟨backs, rfl, fun _ tail => tail⟩

theorem Fades.trans (first : layout.Fades middle) (last : middle.Fades moved) :
    layout.Fades moved := by
  intro page frame backs
  obtain ⟨backs, same, tails⟩ := last page frame backs
  obtain ⟨backs, same', tails'⟩ := first page frame backs
  exact ⟨backs, same.trans same', fun offset tail => tails' offset (tails offset tail)⟩

theorem fades_place {entry : Option PageEntry}
    (away : ∀ placed frame, entry = some placed → placed.backing ≠ .frame frame) :
    layout.Fades (layout.place page entry) := by
  intro other frame backs
  by_cases here : other = page
  · subst here
    obtain ⟨placed, found, resident⟩ := backs
    rw [place_entry, if_pos rfl] at found
    exact absurd resident (away placed frame found)
  · refine ⟨(backs_place here).mp backs, rfl, fun offset tail => ?_⟩
    refine tail.of_role ?_ fun id mapping live => live
    simp only [role, place_entry, if_neg here]

theorem Fades.shift (step : Shift layout moved) : layout.Fades moved := by
  cases step with
  | scratchSlot | writeBack => exact fun page frame backs => ⟨backs, rfl, fun _ tail => tail⟩
  | scratchFrame frame contents idle =>
      intro page other backs
      refine ⟨backs, Function.update_of_ne ?_ _ _, fun _ tail => tail⟩
      intro same
      exact idle page (same ▸ backs)
  | toSwap page entry frame slot found resident idle copied kept =>
      apply fades_place
      intro placed other same
      simp [← Option.some.inj same]
  | toFile page entry frame id mapping found resident belongs live filed saved =>
      apply fades_place
      intro placed other same
      simp [← Option.some.inj same]

theorem Fades.moves (path : Relation.ReflTransGen Shift layout moved) : layout.Fades moved := by
  induction path with
  | refl => exact .refl layout
  | tail _ step ih => exact ih.trans (.shift step)

theorem Fades.shrink {ended : MappingId → Prop} (step : Shrink ended layout moved) :
    layout.Fades moved := by
  cases step with
  | shift step => exact .shift step
  | leave => exact fun page frame backs => ⟨backs, rfl, fun _ tail => tail⟩
  | remove page entry found belongs saved =>
      apply fades_place
      intro placed frame none
      cases none
  | unmap id ending unused =>
      refine fun page frame backs => ⟨backs, rfl, fun offset tail => ?_⟩
      exact tail.of_role rfl fun other mapping live => mapping_of_unmap live

theorem Fades.shrinks {ended : MappingId → Prop}
    (path : Relation.ReflTransGen (Shrink ended) layout moved) : layout.Fades moved := by
  induction path with
  | refl => exact .refl layout
  | tail _ step ih => exact ih.trans (.shrink step)

theorem Fades.extend {mapping : Mapping} (fresh : layout.mapping mapping.id = none)
    (sound : layout.Sound tolerated)
    (free : ∀ page, mapping.contains page → layout.entry (mapping.owner, page) = none) :
    layout.Fades (layout.extend mapping) := by
  intro page frame backs
  have exclusive : (Backing.frame frame).IsExclusive := trivial
  have before := (extend_backs layout page exclusive free).mp backs
  refine ⟨before, rfl, fun offset tail => ?_⟩
  obtain ⟨entry, found, _⟩ := before
  have outside : ¬(page.1 = mapping.owner ∧ mapping.contains page.2) := by
    intro inside
    rw [← inside.1] at free
    exact absurd (found.symm.trans (free page.2 inside.2)) (by simp)
  have role : (layout.extend mapping).role page = layout.role page := by
    simp only [Layout.role, extend_entry, if_neg outside]
  obtain ⟨writable, id, known, belongs, live, tail⟩ := tail
  rw [role] at belongs
  refine ⟨writable, id, known, belongs, ?_, tail⟩
  -- the page had its entry before, so its mapping is not the new one
  obtain ⟨entry', found', _, names⟩ := role_eq_some belongs
  obtain ⟨mapping', live', _⟩ := (sound.admits page entry' found').mapped id names
  rw [extend_mapping, if_neg] at live
  · exact live
  · intro same
    rw [same, fresh] at live'
    cases live'

theorem resident_of_fades (fades : layout.Fades moved) (resident : moved.resident page = true) :
    layout.resident page = true := by
  obtain ⟨frame, backs⟩ := resident_iff.mp resident
  exact resident_iff.mpr ⟨frame, (fades page frame backs).1⟩

theorem resident_of_arrival (arrival : Arrival page frame layout moved) (other : UserPage) :
    moved.resident other = if other = page then true else layout.resident other := by
  cases arrival with
  | fresh | swapped | filed =>
      simp only [resident, place_entry]
      split <;> rfl

end Layout

/-- What has been stored in every page since it last came into a frame, and zeros where nothing
was stored. -/
abbrev Imprint := UserPage → Page

namespace Imprint

variable {imprint : Imprint} {layout middle moved : Layout} {page : UserPage}
  {frame : FrameNumber}

/-- The imprint after the machine has come from one layout to another: pages that have come into
a frame begin anew. -/
def renew (imprint : Imprint) (before after : Layout) : Imprint := fun page =>
  if after.resident page && !before.resident page then Page.zero else imprint page

/-- The imprint after bytes of one page have been overwritten. -/
def store (imprint : Imprint) (page : UserPage) (start : Nat) (source : Bytes) : Imprint :=
  Function.update imprint page ((imprint page).overwrite start source)

theorem renew_of_resident {before after : Layout} (resident : before.resident page = true) :
    imprint.renew before after page = imprint page := by
  simp [renew, resident]

theorem renew_zero {before after : Layout} (zero : imprint page = Page.zero) :
    imprint.renew before after page = Page.zero := by
  simp [renew, zero]

theorem renew_of_fades (fades : layout.Fades moved) : imprint.renew layout moved = imprint := by
  funext page
  cases resident : moved.resident page with
  | false => simp [renew, resident]
  | true => exact renew_of_resident (Layout.resident_of_fades fades resident)

theorem renew_of_arrival (fades : layout.Fades middle) (arrival : Arrival page frame middle moved)
    (away : layout.resident page = false) :
    imprint.renew layout moved = Function.update imprint page Page.zero := by
  funext other
  have residence := Layout.resident_of_arrival arrival other
  by_cases here : other = page
  · rw [here, if_pos rfl] at residence
    simp [renew, here, residence, away]
  · rw [if_neg here] at residence
    rw [Function.update_of_ne here]
    cases resident : moved.resident other with
    | false => simp [renew, resident]
    | true => exact renew_of_resident (Layout.resident_of_fades fades (residence ▸ resident))

def follower : Follower Imprint :=
  ⟨renew, store⟩

abbrev after (imprint : Imprint) (vm : Vm arch) (operation : Vm.Operation) : Imprint :=
  follower.after imprint vm operation

end Imprint

namespace Layout

variable {layout middle moved : Layout} {page : UserPage} {imprint : Imprint}

/-- The tails of pages in frames are what the imprint says. -/
def Bears (layout : Layout) (imprint : Imprint) : Prop :=
  ∀ page frame offset, layout.Backs page (.frame frame) → layout.Tail page offset →
    (layout.frame frame)[offset]? = (imprint page)[offset]?

theorem Bears.fades (bears : layout.Bears imprint) (fades : layout.Fades moved) :
    moved.Bears (imprint.renew layout moved) := by
  rw [Imprint.renew_of_fades fades]
  intro page frame offset backs tail
  obtain ⟨before, same, tails⟩ := fades page frame backs
  rw [same]
  exact bears page frame offset before (tails offset tail)

theorem Bears.settle (bears : layout.Bears imprint) {frame : FrameNumber}
    (idle : ∀ other, ¬layout.Backs other (.frame frame)) {contents : Page} {arrived : PageEntry}
    (resident : arrived.backing = .frame frame)
    (zeros : ∀ offset, ((layout.fillFrame frame contents).place page (some arrived)).Tail page
      offset → contents[offset]? = some 0) :
    ((layout.fillFrame frame contents).place page (some arrived)).Bears
      (Function.update imprint page Page.zero) := by
  intro other frame' offset backs tail
  by_cases here : other = page
  · subst here
    have same : frame = frame' := Backing.frame.inj (resident.symm.trans (backs_place_self.mp backs))
    subst same
    have blank : Page.zero[offset]? = some 0 := by
      simp [Page.zero, tail.small]
    rw [Function.update_self, blank, ← zeros offset tail]
    exact congrArg (fun page : Page => page[offset]?) (Function.update_self _ _ _)
  · have before : layout.Backs other (.frame frame') := (backs_place here).mp backs
    have differs : frame' ≠ frame := by
      intro same
      exact idle other (same ▸ before)
    have kept : layout.Tail other offset := by
      refine tail.of_role ?_ fun id mapping live => live
      simp only [role, place_entry, if_neg here]
      rfl
    rw [Function.update_of_ne here, ← bears other frame' offset before kept]
    exact congrArg (fun page : Page => page[offset]?) (Function.update_of_ne differs _ _)

theorem Bears.arrive (bears : layout.Bears imprint) (sound : layout.Sound tolerated)
    {frame : FrameNumber} (arrival : Arrival page frame layout moved) :
    moved.Bears (Function.update imprint page Page.zero) := by
  have named : ∀ (filled : Layout) (arrived : PageEntry) offset,
      (filled.place page (some arrived)).Tail page offset → ∃ id mapping,
        arrived.mapping = some id ∧ filled.mapping id = some mapping ∧
          mapping.Tail page.2 offset := by
    intro filled arrived offset tail
    obtain ⟨writable, id, mapping, belongs, live, tail⟩ := tail
    simp only [role, place_entry, if_pos] at belongs
    exact ⟨id, mapping, (Prod.ext_iff.mp (Option.some.inj belongs)).2, live, tail⟩
  cases arrival with
  | fresh writable idle new =>
      refine bears.settle idle rfl fun offset tail => ?_
      obtain ⟨id, mapping, none, _⟩ := named _ _ offset tail
      cases none
  | swapped entry slot idle found source =>
      refine bears.settle idle rfl fun offset tail => ?_
      obtain ⟨id, mapping, belongs, live, tail⟩ := named _ _ offset tail
      have kept := (sound.admits page entry found).kept slot id mapping source belongs live
      rw [tail.evictsToFile] at kept
      cases kept
  | filed entry id mapping dest contents idle found source live read =>
      refine bears.settle idle rfl fun offset tail => ?_
      obtain ⟨id', mapping', belongs, live', tail⟩ := named _ _ offset tail
      have same : id' = id := by
        have filed := (sound.admits page entry found).filed id source
        exact Option.some.inj (belongs.symm.trans filed)
      subst same
      cases live.symm.trans live'
      exact tail.readPage read

theorem Bears.brings (bears : layout.Bears imprint) (sound : layout.Sound tolerated)
    {frame : FrameNumber} (path : Relation.ReflTransGen Shift layout middle)
    (arrival : Arrival page frame middle moved) (away : layout.resident page = false) :
    moved.Bears (imprint.renew layout moved) := by
  have faded : middle.Bears imprint := by
    have faded := bears.fades (.moves path)
    rwa [Imprint.renew_of_fades (.moves path)] at faded
  rw [Imprint.renew_of_arrival (.moves path) arrival away]
  exact faded.arrive (sound.moves path) arrival

theorem Bears.reach (bears : layout.Bears imprint) (sound : layout.Sound tolerated)
    (reach : Reach page layout moved) : moved.Bears (imprint.renew layout moved) := by
  cases reach with
  | here => exact bears.fades (.refl layout)
  | brought middle frame moved path arrival away => exact bears.brings sound path arrival away

theorem Bears.write (bears : layout.Bears imprint) (sound : layout.Sound tolerated)
    {frame : FrameNumber} (grants : layout.Grants page frame true) (start : Nat)
    (source : Bytes) :
    ((layout.use page true).fillFrame frame
      ((layout.frame frame).overwrite start source)).Bears (imprint.store page start source) := by
  obtain ⟨entry, found, resident, _⟩ := grants
  intro other frame' offset backs tail
  have before := bears other frame' offset backs tail
  change (Function.update layout.frame frame _ frame')[offset]? =
    (Function.update imprint page _ other)[offset]?
  by_cases here : other = page
  · subst here
    have same : frame' = frame := by
      obtain ⟨entry', found', resident'⟩ := backs
      cases found.symm.trans found'
      exact Backing.frame.inj (resident'.symm.trans resident)
    subst same
    rw [Function.update_self, Function.update_self, Page.getElem?_overwrite _ _ _ tail.small,
      Page.getElem?_overwrite _ _ _ tail.small, before]
  · have differs : frame' ≠ frame := by
      intro same
      exact here (sound.unique (.frame frame) trivial ⟨entry, found, resident⟩ (same ▸ backs))
    rw [Function.update_of_ne here, Function.update_of_ne differs, before]

theorem Bears.effect (bears : layout.Bears imprint) (sound : layout.Sound tolerated)
    {operation : Vm.Operation} (effect : Vm.Effect operation layout moved) :
    moved.Bears (imprint.renew layout moved) := by
  cases effect with
  | moves _ path => exact bears.fades (.moves path)
  | brings page frame middle _ path arrival away => exact bears.brings sound path arrival away
  | loses ended _ path => exact bears.fades (.shrinks path)
  | spawns process | refiles file channel =>
      exact bears.fades fun page frame backs => ⟨backs, rfl, fun _ tail => tail⟩
  | maps mapping fresh live free => exact bears.fades (.extend fresh sound free)

end Layout

theorem Imprint.renew_of_reach {imprint : Imprint} {layout moved : Layout} {page other : UserPage}
    (reach : Reach page layout moved) (here : other = page → layout.resident page = true) :
    imprint.renew layout moved other = imprint other := by
  cases reach with
  | here => rw [renew_of_fades (.refl layout)]
  | brought middle frame moved path arrival away =>
      rw [renew_of_arrival (.moves path) arrival away, Function.update_of_ne]
      intro same
      exact absurd (here same) (by simp [away])

end DemandPaging
