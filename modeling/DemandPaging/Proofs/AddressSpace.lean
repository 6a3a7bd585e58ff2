import DemandPaging.AddressSpace
import DemandPaging.Proofs.Translation

/-!
Address spaces whose entries and translations agree: a page has a translation exactly
when a frame backs it, to that frame and with the entry's permission. Each operation on a
space replaces the entry of one page and keeps this up.
-/

namespace DemandPaging

variable {arch : Architecture} {tolerated : Violation → Prop}

namespace PageEntry

/-- The translation that an entry calls for. -/
def translation (entry : PageEntry) : Option (Option FrameNumber × Bool) :=
  entry.frame?.map fun frame => (some frame, entry.writable)

theorem frame?_eq_some {entry : PageEntry} {frame : FrameNumber} :
    entry.frame? = some frame ↔ entry.backing = .frame frame := by
  unfold frame?
  cases entry.backing <;> simp

end PageEntry

namespace AddressSpace

variable {space : AddressSpace arch} {page : PageNumber} {frame : FrameNumber}
  {entry : PageEntry}

/-- Translations agree with entries. -/
def Coherent (space : AddressSpace arch) : Prop :=
  ∀ page, space.directory.route page = space.entries[page]?.bind PageEntry.translation

/-- A coherent space in which one page has another entry, or none, and is not dirty. -/
structure Places (space : AddressSpace arch) (page : PageNumber) (entry : Option PageEntry)
    (placed : AddressSpace arch) : Prop where
  owner : placed.owner = space.owner
  stackBottom : placed.stackBottom = space.stackBottom
  coherent : placed.Coherent
  entries : ∀ other, placed.entries[other]? =
    if other = page then entry else space.entries[other]?
  dirty : ∀ other, placed.directory.isDirty other =
    if other = page then false else space.directory.isDirty other

theorem Coherent.route_eq_none (coherent : space.Coherent)
    (absent : ∀ entry, space.entries[page]? = some entry → entry.isResident = false) :
    space.directory.route page = none := by
  rw [coherent]
  cases found : space.entries[page]? with
  | none => rfl
  | some entry =>
      have elsewhere := absent entry found
      unfold PageEntry.isResident at elsewhere
      rw [Option.isSome_eq_false_iff, Option.isNone_iff_eq_none] at elsewhere
      simp [PageEntry.translation, elsewhere]

theorem Coherent.route_eq_some (coherent : space.Coherent)
    (found : space.entries[page]? = some entry) (resident : entry.backing = .frame frame) :
    space.directory.route page = some (some frame, entry.writable) := by
  rw [coherent, found]
  simp [PageEntry.translation, PageEntry.frame?, resident]

theorem Coherent.places (coherent : space.Coherent) {entries : NumberMap .page PageEntry}
    {placed : Option PageEntry} {directory : PageDirectory arch}
    (changed : ∀ other, entries[other]? =
      if other = page then placed else space.entries[other]?)
    (routes : ∀ other, directory.route other =
      if other = page then placed.bind PageEntry.translation else space.directory.route other)
    (dirty : ∀ other, directory.isDirty other =
      if other = page then false else space.directory.isDirty other) :
    space.Places page placed { space with entries, directory } := by
  refine ⟨rfl, rfl, ?_, changed, dirty⟩
  intro other
  change directory.route other = entries[other]?.bind _
  rw [changed, routes]
  split
  · rfl
  · exact coherent other

theorem Coherent.places_elsewhere (coherent : space.Coherent) {entries : NumberMap .page PageEntry}
    {placed : Option PageEntry}
    (absent : ∀ entry, space.entries[page]? = some entry → entry.isResident = false)
    (elsewhere : ∀ entry, placed = some entry → entry.isResident = false)
    (changed : ∀ other, entries[other]? =
      if other = page then placed else space.entries[other]?) :
    space.Places page placed { space with entries } := by
  have unmapped := coherent.route_eq_none absent
  refine coherent.places changed (fun other => ?_) (fun other => ?_)
  · split
    · rename_i same
      rw [same, unmapped]
      cases placed with
      | none => rfl
      | some entry =>
          have outside := elsewhere entry rfl
          unfold PageEntry.isResident at outside
          rw [Option.isSome_eq_false_iff, Option.isNone_iff_eq_none] at outside
          simp [PageEntry.translation, outside]
    · rfl
  · split
    · rename_i same
      rw [same]
      exact PageDirectory.has_of_route_eq_none unmapped .dirty
    · rfl

theorem moveOut_places (coherent : space.Coherent) (entry : PageEntry) {backing : Backing}
    (elsewhere : ∀ frame, backing ≠ .frame frame) :
    space.Places page (some { entry with backing }) (space.moveOut page entry backing) := by
  refine coherent.places (NumberMap.getElem?_insert _ _ · _) (fun other => ?_)
    (PageDirectory.unmap_isDirty _ _)
  rw [PageDirectory.unmap_route]
  cases backing with
  | frame frame => exact absurd rfl (elsewhere frame)
  | swap slot => rfl
  | file mapping => rfl

theorem residentEntry_eq (found : space.entries[page]? = some entry)
    (resident : entry.backing = .frame frame) :
    space.residentEntry page = .ok (frame, entry) := by
  unfold residentEntry
  rw [found]
  simp only [resident]

theorem evictToSwap_satisfies (coherent : space.Coherent)
    (found : space.entries[page]? = some entry) (resident : entry.backing = .frame frame)
    (slot : SwapSlot) :
    (space.evictToSwap page slot).Satisfies tolerated fun (_, placed) =>
      space.Places page (some { entry with backing := .swap slot }) placed := by
  unfold evictToSwap
  rw [residentEntry_eq found resident, Checked.ok_bind]
  exact .pure (moveOut_places coherent entry fun _ h => nomatch h)

theorem evictToFile_satisfies (coherent : space.Coherent)
    (found : space.entries[page]? = some entry) (resident : entry.backing = .frame frame)
    {id : MappingId} (belongs : entry.mapping = some id) :
    (space.evictToFile page).Satisfies tolerated fun (_, placed) =>
      space.Places page (some { entry with backing := .file id }) placed := by
  unfold evictToFile
  rw [residentEntry_eq found resident, Checked.ok_bind]
  dsimp only
  split
  · rename_i missing
    exact absurd (missing.symm.trans belongs) (by simp)
  · rename_i other named
    obtain rfl := Option.some.inj (named.symm.trans belongs)
    exact .pure (moveOut_places coherent entry fun _ h => nomatch h)

theorem faultIn_satisfies (coherent : space.Coherent)
    (found : space.entries[page]? = some entry) (elsewhere : entry.isResident = false)
    (start : ∀ violation, frame.frameStart arch = .error violation → tolerated violation) :
    (space.faultIn page frame).Satisfies tolerated fun placed =>
      space.Places page (some { entry with backing := .frame frame }) placed := by
  have unmapped : space.directory.route page = none := by
    apply coherent.route_eq_none
    intro other listed
    rw [found] at listed
    cases listed
    exact elsewhere
  unfold faultIn
  simp only [found]
  refine .bind (.require (by simp [elsewhere])) fun _ _ => ?_
  refine .bind (PageDirectory.map_satisfies unmapped start) ?_
  rintro directory ⟨routes, dirty⟩
  exact .pure (coherent.places (NumberMap.getElem?_insert _ _ · _) routes dirty)

theorem installFrame_satisfies (coherent : space.Coherent)
    (absent : space.entries[page]? = none)
    (start : ∀ violation, frame.frameStart arch = .error violation → tolerated violation)
    (writable : Bool) :
    (space.installFrame page frame writable).Satisfies tolerated fun (installed, placed) =>
      installed = true ∧
        space.Places page (some { backing := .frame frame, writable, mapping := none }) placed := by
  have unlisted := NumberMap.contains_eq_false.mpr absent
  have unmapped : space.directory.route page = none := by
    apply coherent.route_eq_none
    intro other listed
    rw [absent] at listed
    cases listed
  unfold installFrame
  simp only [unlisted, Bool.false_eq_true, if_false]
  refine .bind (PageDirectory.map_satisfies unmapped start) ?_
  rintro directory ⟨routes, dirty⟩
  exact .pure ⟨rfl, coherent.places (NumberMap.getElem?_insert _ _ · _) routes dirty⟩

end AddressSpace
end DemandPaging
