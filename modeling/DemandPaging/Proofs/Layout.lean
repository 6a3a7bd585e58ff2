import Mathlib.Logic.Relation
import Mathlib.Logic.Function.Basic
import DemandPaging.AddressSpace
import DemandPaging.Proofs.Outcome

/-!
Where the contents of every page are. A layout forgets how entries, translations, frames
and slots are represented; what operations do to memory is a short list of changes of a
layout. Each of them keeps the layout sound: no frame or slot holds two pages, and a page
lives in a file or in swap only where its mapping lets it.
-/

namespace DemandPaging

abbrev UserPage := ProcessId × PageNumber

/-- Whether a backing holds the contents of one page only. -/
def Backing.IsExclusive : Backing → Prop
  | .file _ => False
  | _ => True

@[ext] structure Layout where
  /-- Whether a process has an address space. -/
  live : ProcessId → Bool
  entry : UserPage → Option PageEntry
  dirty : UserPage → Bool
  frame : FrameNumber → Page
  slot : SwapSlot → Page
  files : FileStore
  mapping : MappingId → Option Mapping

namespace Layout

variable {layout moved : Layout} {page : UserPage} {entry : PageEntry}
  {tolerated : Violation → Prop}

def Backs (layout : Layout) (page : UserPage) (backing : Backing) : Prop :=
  ∃ entry, layout.entry page = some entry ∧ entry.backing = backing

def resident (layout : Layout) (page : UserPage) : Bool :=
  (layout.entry page).any PageEntry.isResident

theorem resident_eq_false : layout.resident page = false ↔
    ∀ entry, layout.entry page = some entry → entry.isResident = false := by
  unfold resident
  rw [Option.any_eq_false]

/-- The layout with another entry of a page, which is not dirty. -/
def place (layout : Layout) (page : UserPage) (entry : Option PageEntry) : Layout :=
  { layout with
    entry := Function.update layout.entry page entry
    dirty := Function.update layout.dirty page false }

def fillFrame (layout : Layout) (frame : FrameNumber) (contents : Page) : Layout :=
  { layout with frame := Function.update layout.frame frame contents }

def fillSlot (layout : Layout) (slot : SwapSlot) (contents : Page) : Layout :=
  { layout with slot := Function.update layout.slot slot contents }

/-- The entry may stand for the page, as far as the other pages and the mappings go. -/
structure Admits (layout : Layout) (page : UserPage) (entry : PageEntry) : Prop where
  alone : entry.backing.IsExclusive → ∀ other, other ≠ page → ¬layout.Backs other entry.backing
  filed : ∀ id, entry.backing = .file id → entry.mapping = some id
  mapped : ∀ id, entry.mapping = some id → ∃ mapping, layout.mapping id = some mapping ∧
    mapping.owner = page.1 ∧ mapping.contains page.2 ∧ mapping.segment.writable = entry.writable
  kept : ∀ slot id mapping, entry.backing = .swap slot → entry.mapping = some id →
    layout.mapping id = some mapping → mapping.evictsToFile page.2 = .ok false

/-- Every entry is admitted, mappings belong to processes that live, and the part of a file
behind a page is found but for violations that are tolerated. -/
structure Sound (tolerated : Violation → Prop) (layout : Layout) : Prop where
  admits : ∀ page entry, layout.entry page = some entry → layout.Admits page entry
  named : ∀ id mapping, layout.mapping id = some mapping → mapping.id = id
  ranges : ∀ id mapping page, layout.mapping id = some mapping → mapping.contains page →
    ∀ violation, mapping.fileRange page = .error violation → tolerated violation
  housed : ∀ id mapping, layout.mapping id = some mapping → layout.live mapping.owner = true

@[simp] theorem backs_fillSlot {slot : SwapSlot} {contents : Page} {backing : Backing} :
    (layout.fillSlot slot contents).Backs page backing ↔ layout.Backs page backing := Iff.rfl

theorem place_entry (layout : Layout) (page other : UserPage) (entry : Option PageEntry) :
    (layout.place page entry).entry other =
      if other = page then entry else layout.entry other :=
  Function.update_apply layout.entry page entry other

theorem backs_place {other : UserPage} {backing : Backing} (apart : other ≠ page)
    {entry : Option PageEntry} :
    (layout.place page entry).Backs other backing ↔ layout.Backs other backing := by
  unfold Backs
  rw [place_entry, if_neg apart]

theorem backs_place_self {backing : Backing} :
    (layout.place page (some entry)).Backs page backing ↔ entry.backing = backing := by
  unfold Backs
  simp [place_entry]

/-- A backing that holds one page only belongs to one page. -/
theorem Sound.unique (sound : layout.Sound tolerated) {other : UserPage} (backing : Backing)
    (exclusive : backing.IsExclusive) (backs : layout.Backs page backing)
    (again : layout.Backs other backing) : other = page := by
  obtain ⟨entry, found, rfl⟩ := backs
  by_contra apart
  exact (sound.admits page entry found).alone exclusive other apart again

theorem Sound.backs_place_iff {entry : Option PageEntry} {other : UserPage} {backing : Backing}
    (sound : (layout.place page entry).Sound tolerated) (exclusive : backing.IsExclusive) :
    (layout.place page entry).Backs other backing ↔
      if ∃ placed, entry = some placed ∧ placed.backing = backing then other = page
      else other ≠ page ∧ layout.Backs other backing := by
  split
  · rename_i placed
    obtain ⟨placed, rfl, rfl⟩ := placed
    refine ⟨fun again => sound.unique _ exclusive (backs_place_self.mpr rfl) again, ?_⟩
    rintro rfl
    exact backs_place_self.mpr rfl
  · rename_i elsewhere
    by_cases same : other = page
    · subst same
      refine ⟨?_, fun h => absurd rfl h.1⟩
      rintro ⟨placed, found, source⟩
      rw [place_entry, if_pos rfl] at found
      exact absurd ⟨placed, found, source⟩ elsewhere
    · rw [backs_place same]
      exact ⟨fun h => ⟨same, h⟩, fun h => h.2⟩

theorem Sound.place (sound : layout.Sound tolerated) (admits : layout.Admits page entry) :
    (layout.place page (some entry)).Sound tolerated := by
  refine ⟨?_, sound.named, sound.ranges, sound.housed⟩
  intro other present found
  rw [place_entry] at found
  by_cases same : other = page
  · subst same
    rw [if_pos rfl] at found
    cases found
    refine ⟨?_, admits.filed, admits.mapped, admits.kept⟩
    intro exclusive another apart
    rw [backs_place apart]
    exact admits.alone exclusive another apart
  · rw [if_neg same] at found
    have before := sound.admits other present found
    refine ⟨?_, before.filed, before.mapped, before.kept⟩
    intro exclusive another apart
    by_cases placed : another = page
    · subst placed
      rw [backs_place_self]
      intro shared
      rw [← shared] at exclusive
      exact admits.alone exclusive other same ⟨present, found, shared.symm⟩
    · rw [backs_place placed]
      exact before.alone exclusive another apart

theorem Sound.remove (sound : layout.Sound tolerated) (page : UserPage) :
    (layout.place page none).Sound tolerated := by
  refine ⟨?_, sound.named, sound.ranges, sound.housed⟩
  intro other present found
  rw [place_entry] at found
  split at found
  · cases found
  · have before := sound.admits other present found
    refine ⟨?_, before.filed, before.mapped, before.kept⟩
    intro exclusive another apart
    rintro ⟨entry, listed, shared⟩
    rw [place_entry] at listed
    split at listed
    · cases listed
    · exact before.alone exclusive another apart ⟨entry, listed, shared⟩

theorem Admits.move (admits : layout.Admits page entry) {backing : Backing}
    (alone : backing.IsExclusive → ∀ other, ¬layout.Backs other backing)
    (filed : ∀ id, backing = .file id → entry.mapping = some id)
    (kept : ∀ slot id mapping, backing = .swap slot → entry.mapping = some id →
      layout.mapping id = some mapping → mapping.evictsToFile page.2 = .ok false) :
    layout.Admits page { entry with backing } :=
  ⟨fun exclusive other _ => alone exclusive other, filed, admits.mapped, kept⟩

end Layout

/-- A move of contents from one store to another, under which no page comes or goes. -/
inductive Shift : Layout → Layout → Prop
  /-- A slot that holds no page is written. -/
  | scratchSlot (layout : Layout) (slot : SwapSlot) (contents : Page)
      (idle : ∀ page, ¬layout.Backs page (.swap slot)) :
      Shift layout (layout.fillSlot slot contents)
  /-- A frame that holds no page is written. -/
  | scratchFrame (layout : Layout) (frame : FrameNumber) (contents : Page)
      (idle : ∀ page, ¬layout.Backs page (.frame frame)) :
      Shift layout (layout.fillFrame frame contents)
  /-- A page that its file cannot give back moves to a slot that holds its contents. -/
  | toSwap (layout : Layout) (page : UserPage) (entry : PageEntry) (frame : FrameNumber)
      (slot : SwapSlot) (found : layout.entry page = some entry)
      (resident : entry.backing = .frame frame) (idle : ∀ page, ¬layout.Backs page (.swap slot))
      (copied : layout.slot slot = layout.frame frame)
      (kept : ∀ id mapping, entry.mapping = some id → layout.mapping id = some mapping →
        mapping.evictsToFile page.2 = .ok false) :
      Shift layout (layout.place page (some { entry with backing := .swap slot }))
  /-- A dirty page is written to its file. -/
  | writeBack (layout : Layout) (page : UserPage) (entry : PageEntry) (frame : FrameNumber)
      (id : MappingId) (mapping : Mapping) (result : Except VmError Unit) (files : FileStore)
      (found : layout.entry page = some entry) (resident : entry.backing = .frame frame)
      (belongs : entry.mapping = some id) (live : layout.mapping id = some mapping)
      (written : mapping.writePage layout.files page.2 (layout.frame frame) = .ok (result, files)) :
      Shift layout { layout with files }
  /-- A page that its file can give back, and that is clean or has just been written there,
  moves to the file. -/
  | toFile (layout : Layout) (page : UserPage) (entry : PageEntry) (frame : FrameNumber)
      (id : MappingId) (mapping : Mapping) (found : layout.entry page = some entry)
      (resident : entry.backing = .frame frame) (belongs : entry.mapping = some id)
      (live : layout.mapping id = some mapping) (filed : mapping.evictsToFile page.2 = .ok true)
      (saved : layout.dirty page = true → ∃ files,
        mapping.writePage files page.2 (layout.frame frame) = .ok (.ok (), layout.files)) :
      Shift layout (layout.place page (some { entry with backing := .file id }))

/-- A step towards the end of the mappings in `ended`, or of a process. -/
inductive Shrink (ended : MappingId → Prop) : Layout → Layout → Prop
  | shift {layout moved : Layout} (step : Shift layout moved) : Shrink ended layout moved
  /-- A page goes; if it was dirty and of a mapping, it has just been written to the file,
  as far as the file took it. -/
  | remove (layout : Layout) (page : UserPage) (entry : PageEntry)
      (found : layout.entry page = some entry)
      (belongs : ∀ id, entry.mapping = some id → ended id)
      (saved : ∀ frame id mapping, entry.backing = .frame frame → entry.mapping = some id →
        layout.mapping id = some mapping → layout.dirty page = true →
          ∃ files result, mapping.writePage files page.2 (layout.frame frame) =
            .ok (result, layout.files)) :
      Shrink ended layout (layout.place page none)
  /-- A mapping without pages goes. -/
  | unmap (layout : Layout) (id : MappingId) (ending : ended id)
      (unused : ∀ page entry, layout.entry page = some entry → entry.mapping ≠ some id) :
      Shrink ended layout { layout with mapping := Function.update layout.mapping id none }
  /-- A process without pages and without mappings goes. -/
  | leave (layout : Layout) (process : ProcessId)
      (empty : ∀ page, layout.entry (process, page) = none)
      (unmapped : ∀ id mapping, layout.mapping id = some mapping → mapping.owner ≠ process) :
      Shrink ended layout { layout with live := Function.update layout.live process false }

theorem Shrink.mono {ended also : MappingId → Prop} (weaker : ∀ id, ended id → also id)
    {layout moved : Layout} (step : Shrink ended layout moved) : Shrink also layout moved := by
  cases step with
  | shift step => exact .shift step
  | remove page entry found belongs saved =>
      exact .remove layout page entry found (fun id named => weaker id (belongs id named)) saved
  | unmap id ending unused => exact .unmap layout id (weaker id ending) unused
  | leave process empty unmapped => exact .leave layout process empty unmapped

theorem Shrink.of_moves {ended : MappingId → Prop} {layout moved : Layout}
    (path : Relation.ReflTransGen Shift layout moved) :
    Relation.ReflTransGen (Shrink ended) layout moved :=
  Relation.ReflTransGen.mono (fun _ _ => Shrink.shift) _ _ path

/-- A page that comes into a frame that holds no other, with its first or its former
contents. -/
inductive Arrival (page : UserPage) (frame : FrameNumber) : Layout → Layout → Prop
  /-- A page that is new. -/
  | fresh (layout : Layout) (writable : Bool) (idle : ∀ other, ¬layout.Backs other (.frame frame))
      (new : layout.entry page = none) :
      Arrival page frame layout
        ((layout.fillFrame frame Page.zero).place page
          (some { backing := .frame frame, writable, mapping := none }))
  | swapped (layout : Layout) (entry : PageEntry) (slot : SwapSlot)
      (idle : ∀ other, ¬layout.Backs other (.frame frame))
      (found : layout.entry page = some entry) (source : entry.backing = .swap slot) :
      Arrival page frame layout
        ((layout.fillFrame frame (layout.slot slot)).place page
          (some { entry with backing := .frame frame }))
  | filed (layout : Layout) (entry : PageEntry) (id : MappingId) (mapping : Mapping)
      (dest contents : Page) (idle : ∀ other, ¬layout.Backs other (.frame frame))
      (found : layout.entry page = some entry)
      (source : entry.backing = .file id) (live : layout.mapping id = some mapping)
      (read : mapping.readPage layout.files page.2 dest = .ok contents) :
      Arrival page frame layout
        ((layout.fillFrame frame contents).place page
          (some { entry with backing := .frame frame }))

namespace Layout

variable {layout moved : Layout} {page : UserPage} {entry : PageEntry} {frame : FrameNumber}
  {tolerated : Violation → Prop}

theorem Admits.congr (admits : layout.Admits page entry) (entries : moved.entry = layout.entry)
    (mappings : moved.mapping = layout.mapping) : moved.Admits page entry := by
  obtain ⟨alone, filed, mapped, kept⟩ := admits
  refine ⟨?_, filed, ?_, ?_⟩
  · unfold Backs
    rwa [entries]
  · rwa [mappings]
  · rwa [mappings]

theorem Sound.congr (sound : layout.Sound tolerated) (lives : moved.live = layout.live)
    (entries : moved.entry = layout.entry) (mappings : moved.mapping = layout.mapping) :
    moved.Sound tolerated := by
  obtain ⟨admits, named, ranges, housed⟩ := sound
  refine ⟨?_, ?_, ?_, ?_⟩
  · intro page entry found
    rw [entries] at found
    exact (admits page entry found).congr entries mappings
  · rwa [mappings]
  · rwa [mappings]
  · rwa [mappings, lives]

theorem Sound.shift (sound : layout.Sound tolerated) (step : Shift layout moved) :
    moved.Sound tolerated := by
  cases step with
  | scratchSlot | scratchFrame | writeBack => exact sound.congr rfl rfl rfl
  | toSwap page entry frame slot found resident idle copied kept =>
      refine sound.place ((sound.admits page entry found).move (fun _ => idle) ?_ ?_)
      · rintro id ⟨⟩
      · rintro slot id mapping ⟨⟩ belongs live
        exact kept id mapping belongs live
  | toFile page entry frame id mapping found resident belongs live filed saved =>
      refine sound.place ((sound.admits page entry found).move (fun exclusive => exclusive.elim)
        ?_ ?_)
      · rintro other ⟨⟩
        exact belongs
      · rintro slot other mapping ⟨⟩

theorem mapping_of_unmap {id other : MappingId} {mapping : Mapping}
    (live : Function.update layout.mapping id none other = some mapping) :
    layout.mapping other = some mapping := by
  rw [Function.update_apply] at live
  split at live
  · cases live
  · exact live

theorem Sound.shrink {ended : MappingId → Prop} (sound : layout.Sound tolerated)
    (step : Shrink ended layout moved) : moved.Sound tolerated := by
  cases step with
  | shift step => exact sound.shift step
  | remove page => exact sound.remove page
  | leave process empty unmapped =>
      refine ⟨?_, sound.named, sound.ranges, ?_⟩
      · intro page entry found
        exact (sound.admits page entry found).congr rfl rfl
      · intro id mapping live
        change Function.update layout.live process false mapping.owner = true
        rw [Function.update_of_ne (unmapped id mapping live)]
        exact sound.housed id mapping live
  | unmap id ending unused =>
      refine ⟨?_, ?_, ?_, ?_⟩
      · intro page entry found
        have before := sound.admits page entry found
        refine ⟨before.alone, before.filed, ?_, ?_⟩
        · intro other belongs
          have differs : other ≠ id := fun same => unused page entry found (same ▸ belongs)
          change ∃ mapping, Function.update layout.mapping id none other = some mapping ∧ _
          rw [Function.update_of_ne differs]
          exact before.mapped other belongs
        · intro slot other mapping source belongs live
          exact before.kept slot other mapping source belongs (mapping_of_unmap live)
      · intro other mapping live
        exact sound.named other mapping (mapping_of_unmap live)
      · intro other mapping page live
        exact sound.ranges other mapping page (mapping_of_unmap live)
      · intro other mapping live
        exact sound.housed other mapping (mapping_of_unmap live)

theorem Sound.moves (sound : layout.Sound tolerated)
    (path : Relation.ReflTransGen Shift layout moved) : moved.Sound tolerated := by
  induction path with
  | refl => exact sound
  | tail _ step ih => exact ih.shift step

theorem Sound.shrinks {ended : MappingId → Prop} (sound : layout.Sound tolerated)
    (path : Relation.ReflTransGen (Shrink ended) layout moved) : moved.Sound tolerated := by
  induction path with
  | refl => exact sound
  | tail _ step ih => exact ih.shrink step

theorem Sound.arrive (sound : layout.Sound tolerated) (step : Arrival page frame layout moved) :
    moved.Sound tolerated := by
  have settle : ∀ (contents : Page) (entry : PageEntry),
      (∀ other, ¬layout.Backs other (.frame frame)) →
      (∀ id, entry.mapping = some id → ∃ mapping, layout.mapping id = some mapping ∧
        mapping.owner = page.1 ∧ mapping.contains page.2 ∧
          mapping.segment.writable = entry.writable) →
      ((layout.fillFrame frame contents).place page
        (some { entry with backing := .frame frame })).Sound tolerated := by
    intro contents entry idle mapped
    have refilled : (layout.fillFrame frame contents).Sound tolerated := sound.congr rfl rfl rfl
    refine refilled.place ⟨fun _ other _ => idle other, ?_, mapped, ?_⟩
    · rintro id ⟨⟩
    · rintro slot id mapping ⟨⟩
  cases step with
  | fresh writable idle new =>
      refine settle Page.zero { backing := .frame frame, writable, mapping := none } idle ?_
      rintro id ⟨⟩
  | swapped entry slot idle found source =>
      exact settle _ entry idle (sound.admits page entry found).mapped
  | filed entry id mapping dest contents idle found source live read =>
      exact settle _ entry idle (sound.admits page entry found).mapped

theorem entry_of_shift (step : Shift layout moved)
    (elsewhere : ∀ entry, layout.entry page = some entry → entry.isResident = false) :
    moved.entry page = layout.entry page := by
  cases step with
  | scratchSlot | scratchFrame | writeBack => rfl
  | toSwap other entry frame slot found resident =>
      rw [place_entry, if_neg]
      rintro rfl
      exact absurd (elsewhere entry found) (by simp [PageEntry.isResident_of_frame resident])
  | toFile other entry frame id mapping found resident =>
      rw [place_entry, if_neg]
      rintro rfl
      exact absurd (elsewhere entry found) (by simp [PageEntry.isResident_of_frame resident])

theorem entry_of_moves (path : Relation.ReflTransGen Shift layout moved)
    (elsewhere : ∀ entry, layout.entry page = some entry → entry.isResident = false) :
    moved.entry page = layout.entry page := by
  induction path with
  | refl => rfl
  | tail _ step ih =>
      refine (entry_of_shift step ?_).trans ih
      rwa [ih]

/-- What a page is for, which does not change when it moves. -/
def role (layout : Layout) (page : UserPage) : Option (Bool × Option MappingId) :=
  (layout.entry page).map fun entry => (entry.writable, entry.mapping)

theorem role_isSome : (layout.role page).isSome = (layout.entry page).isSome :=
  Option.isSome_map

theorem entry_of_role (same : moved.role page = layout.role page)
    (found : layout.entry page = some entry) : ∃ present, moved.entry page = some present ∧
      present.writable = entry.writable ∧ present.mapping = entry.mapping := by
  unfold role at same
  rw [found] at same
  obtain ⟨present, listed, role⟩ := Option.map_eq_some_iff.mp same
  exact ⟨present, listed, Prod.ext_iff.mp role⟩

theorem place_role (found : layout.entry page = some entry) (backing : Backing)
    (other : UserPage) :
    (layout.place page (some { entry with backing })).role other = layout.role other := by
  unfold role
  rw [place_entry]
  split
  · rename_i same
    rw [same, found]
    rfl
  · rfl

theorem role_of_moves (path : Relation.ReflTransGen Shift layout moved) (page : UserPage) :
    moved.role page = layout.role page := by
  induction path with
  | refl => rfl
  | tail _ step ih =>
      rw [← ih]
      cases step with
      | scratchSlot | scratchFrame | writeBack => rfl
      | toSwap other entry frame slot found => exact place_role found _ page
      | toFile other entry frame id mapping found => exact place_role found _ page

theorem mapping_of_moves (path : Relation.ReflTransGen Shift layout moved) :
    moved.mapping = layout.mapping := by
  induction path with
  | refl => rfl
  | tail _ step ih =>
      rw [← ih]
      cases step <;> rfl

theorem role_of_arrival {other : UserPage} {frame : FrameNumber}
    (arrival : Arrival page frame layout moved) (known : (layout.entry other).isSome) :
    moved.role other = layout.role other := by
  cases arrival with
  | fresh writable idle new =>
      unfold role
      rw [place_entry, if_neg]
      · rfl
      · rintro rfl
        rw [new] at known
        cases known
  | swapped entry slot idle found source => exact place_role found _ other
  | filed entry id mapping dest contents idle found source live read => exact place_role found _ other

theorem mapping_of_arrival {frame : FrameNumber} (arrival : Arrival page frame layout moved) :
    moved.mapping = layout.mapping := by
  cases arrival <;> rfl

theorem live_of_moves (path : Relation.ReflTransGen Shift layout moved) :
    moved.live = layout.live := by
  induction path with
  | refl => rfl
  | tail _ step ih =>
      rw [← ih]
      cases step <;> rfl

/-- Where the contents of a page that is not resident come from. -/
def Sources (layout : Layout) (page : UserPage) : PageSource → Prop
  | .zero => layout.entry page = none
  | .swap slot => layout.Backs page (.swap slot)
  | .file id => layout.Backs page (.file id)

theorem Sources.elsewhere {source : PageSource} (sources : layout.Sources page source)
    (entry : PageEntry) (found : layout.entry page = some entry) : entry.isResident = false := by
  cases source with
  | zero => exact absurd (sources.symm.trans found) (by simp)
  | swap slot =>
      obtain ⟨present, again, source⟩ := sources
      rw [found] at again
      cases again
      exact PageEntry.isResident_eq_false (by simp [source])
  | file id =>
      obtain ⟨present, again, source⟩ := sources
      rw [found] at again
      cases again
      exact PageEntry.isResident_eq_false (by simp [source])

theorem Sources.moves {source : PageSource} (sources : layout.Sources page source)
    (path : Relation.ReflTransGen Shift layout moved) : moved.Sources page source := by
  have same := entry_of_moves path sources.elsewhere
  cases source with
  | zero => exact same.trans sources
  | swap slot =>
      obtain ⟨entry, found, source⟩ := sources
      exact ⟨entry, same.trans found, source⟩
  | file id =>
      obtain ⟨entry, found, source⟩ := sources
      exact ⟨entry, same.trans found, source⟩

end Layout

end DemandPaging
