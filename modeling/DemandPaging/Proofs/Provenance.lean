import DemandPaging.Proofs.Transparency

/-!
Where the contents of a page come from. A page that is in a frame or a slot after an operation
held the same before, or has come into a frame and been filled completely, from its file or
with zeros. What was left in the frame is never seen.
-/

namespace DemandPaging
namespace Layout

variable {layout middle moved other : Layout} {page : UserPage} {frame : FrameNumber}

/-- What a page holds in its frame or slot; a page that lives in a file holds nothing. -/
def contentsOf (layout : Layout) (page : UserPage) : Option Page :=
  (layout.entry page).bind fun entry => layout.contents? entry.backing

theorem contentsOf_eq {entry : PageEntry} (present : layout.entry page = some entry) :
    layout.contentsOf page = layout.contents? entry.backing := by
  unfold contentsOf
  rw [present]
  rfl

theorem contentsOf_of_backs (same : ∀ page backing, layout.Backs page backing →
      moved.contents? backing = layout.contents? backing) (entries : moved.entry = layout.entry)
    (page : UserPage) : moved.contentsOf page = layout.contentsOf page := by
  unfold contentsOf
  rw [entries]
  cases present : layout.entry page with
  | none => rfl
  | some entry => exact same page entry.backing ⟨entry, present, rfl⟩

theorem contentsOf_place_of_ne {other : UserPage} (apart : other ≠ page)
    (entry : Option PageEntry) :
    (layout.place page entry).contentsOf other = layout.contentsOf other := by
  unfold contentsOf
  rw [place_entry, if_neg apart]
  rfl

theorem contentsOf_place_self (entry : Option PageEntry) :
    (layout.place page entry).contentsOf page =
      entry.bind fun entry => layout.contents? entry.backing := by
  unfold contentsOf
  rw [place_entry, if_pos rfl]
  rfl

/-- The page holds what it held, or lives in a file. -/
def Upholds (layout moved : Layout) (page : UserPage) : Prop :=
  ∀ contents, moved.contentsOf page = some contents → layout.contentsOf page = some contents

theorem Upholds.of_eq (same : moved.contentsOf page = layout.contentsOf page) :
    layout.Upholds moved page :=
  fun _ holds => same.symm.trans holds

theorem upholds_of_shift (step : Shift layout moved) (page : UserPage) :
    layout.Upholds moved page := by
  cases step with
  | scratchSlot slot contents idle =>
      exact .of_eq (contentsOf_of_backs (contents?_fillSlot idle contents) rfl page)
  | scratchFrame frame contents idle =>
      exact .of_eq (contentsOf_of_backs (contents?_fillFrame idle contents) rfl page)
  | writeBack => exact .of_eq rfl
  | toSwap other entry frame slot found resident idle copied kept =>
      by_cases same : page = other
      · subst same
        refine .of_eq ?_
        rw [contentsOf_place_self, contentsOf_eq found, resident]
        exact congrArg some copied
      · exact .of_eq (contentsOf_place_of_ne same _)
  | toFile other entry frame id mapping found resident belongs live filed saved =>
      by_cases same : page = other
      · subst same
        intro contents holds
        rw [contentsOf_place_self] at holds
        cases holds
      · exact .of_eq (contentsOf_place_of_ne same _)

theorem upholds_of_shrink {ended : MappingId → Prop} (step : Shrink ended layout moved)
    (page : UserPage) : layout.Upholds moved page := by
  cases step with
  | shift step => exact upholds_of_shift step page
  | unmap => exact .of_eq rfl
  | leave => exact .of_eq rfl
  | remove other entry found belongs saved =>
      by_cases same : page = other
      · subst same
        intro contents holds
        rw [contentsOf_place_self] at holds
        cases holds
      · exact .of_eq (contentsOf_place_of_ne same _)

theorem upholds_of_shrinks {ended : MappingId → Prop}
    (path : Relation.ReflTransGen (Shrink ended) layout moved) (page : UserPage) :
    layout.Upholds moved page := by
  induction path with
  | refl => exact .of_eq rfl
  | tail _ step ih =>
      exact fun contents holds => ih contents (upholds_of_shrink step page contents holds)

theorem upholds_of_moves (path : Relation.ReflTransGen Shift layout moved) (page : UserPage) :
    layout.Upholds moved page := by
  have path : Relation.ReflTransGen (Shrink fun _ => False) layout moved := Shrink.of_moves path
  exact upholds_of_shrinks path page

/-- What is found where the contents of a page are, if the files are these. -/
def find (layout : Layout) (files : FileStore) (page : UserPage) : Backing → Option Page
  | .frame frame => some (layout.frame frame)
  | .swap slot => some (layout.slot slot)
  | .file id => (layout.mapping id).bind fun mapping =>
      (mapping.readPage files page.2 Page.zero).toOption

/-- What a page holds once it is in memory: what it holds already, what its file gives, or zeros
if it is new. -/
def supply (layout : Layout) (files : FileStore) (page : UserPage) : Option Page :=
  (layout.entry page).elim (some Page.zero) fun entry => layout.find files page entry.backing

theorem supply_new (new : layout.entry page = none) (files : FileStore) :
    layout.supply files page = some Page.zero := by
  unfold supply
  rw [new]
  rfl

theorem supply_eq_find {entry : PageEntry} (present : layout.entry page = some entry)
    (files : FileStore) : layout.supply files page = layout.find files page entry.backing := by
  unfold supply
  rw [present]
  rfl

theorem find_of_contents? {backing : Backing} {contents : Page}
    (holds : layout.contents? backing = some contents) (files : FileStore) :
    layout.find files page backing = some contents := by
  cases backing with
  | frame | swap => exact holds
  | file id => cases holds

theorem supply_of_contentsOf {contents : Page} (holds : layout.contentsOf page = some contents)
    (files : FileStore) : layout.supply files page = some contents := by
  obtain ⟨entry, present, inside⟩ := Option.bind_eq_some_iff.mp holds
  rw [supply_eq_find present]
  exact find_of_contents? inside files

/-- Whatever a page holds in a frame or slot is what was supplied for it. -/
def Supplies (layout moved : Layout) : Prop :=
  ∀ page contents, moved.contentsOf page = some contents →
    layout.supply moved.files page = some contents

theorem supplies_of_upholds (upholds : ∀ page, layout.Upholds moved page) :
    layout.Supplies moved :=
  fun page contents holds => supply_of_contentsOf (upholds page contents holds) moved.files

theorem Supplies.refl (layout : Layout) : layout.Supplies layout :=
  supplies_of_upholds fun _ => .of_eq rfl

theorem supplies_of_arrival (path : Relation.ReflTransGen Shift layout middle)
    (arrival : Arrival page frame middle moved) (away : layout.resident page = false) :
    layout.Supplies moved := by
  have entry := entry_of_moves path (resident_eq_false.mp away)
  have mapping := mapping_of_moves path
  have upholds := upholds_of_moves path
  have settle : ∀ (contents : Page) (arrived : PageEntry) (files : FileStore),
      (∀ other, ¬middle.Backs other (.frame frame)) → arrived.backing = .frame frame →
      layout.supply files page = some contents →
      ∀ other held,
        ((middle.fillFrame frame contents).place page (some arrived)).contentsOf other = some held →
          layout.supply files other = some held := by
    intro contents arrived files idle resident supplied other held holds
    by_cases same : other = page
    · subst same
      rw [contentsOf_place_self, Option.bind_some, resident] at holds
      have filled : (middle.fillFrame frame contents).frame frame = contents :=
        Function.update_self _ _ _
      rw [supplied, ← filled]
      exact holds
    · rw [contentsOf_place_of_ne same,
        contentsOf_of_backs (contents?_fillFrame idle contents) rfl] at holds
      exact supply_of_contentsOf (upholds other held holds) files
  cases arrival with
  | fresh writable idle new => exact settle _ _ _ idle rfl (supply_new (entry.symm.trans new) _)
  | swapped present slot idle found source =>
      refine settle _ _ _ idle rfl (supply_of_contentsOf (upholds page _ ?_) _)
      rw [contentsOf_eq found, source]
      rfl
  | filed present id owner dest contents idle found source live read =>
      refine settle _ _ _ idle rfl ?_
      rw [supply_eq_find (entry.symm.trans found), source]
      change (layout.mapping id).bind _ = some contents
      rw [← mapping, live, Option.bind_some]
      change (owner.readPage middle.files page.2 Page.zero).toOption = some contents
      rw [Mapping.readPage_dest read Page.zero]
      rfl

theorem supplies_of_effect {operation : Vm.Operation} (effect : Vm.Effect operation layout moved) :
    layout.Supplies moved := by
  cases effect with
  | moves _ path => exact supplies_of_upholds (upholds_of_moves path)
  | brings page frame middle _ path arrival away => exact supplies_of_arrival path arrival away
  | loses ended _ path => exact supplies_of_upholds (upholds_of_shrinks path)
  | spawns => exact supplies_of_upholds fun _ => .of_eq rfl
  | refiles => exact supplies_of_upholds fun _ => .of_eq rfl
  | maps mapping fresh live free =>
      refine supplies_of_upholds fun page contents holds => ?_
      unfold contentsOf at holds
      rw [extend_entry] at holds
      split at holds
      · cases holds
      · exact holds

/-- What is supplied depends on where the page lives, and on what its file gives. -/
theorem supply_eq (entries : other.entry = layout.entry) (mappings : other.mapping = layout.mapping)
    (contents : layout.contentsOf page = other.contentsOf page) {files files' : FileStore}
    (same : ∀ id mapping, layout.Backs page (.file id) → layout.mapping id = some mapping →
      files'.get mapping.segment.file = files.get mapping.segment.file) :
    layout.supply files page = other.supply files' page := by
  cases present : layout.entry page with
  | none => rw [supply_new present, supply_new ((congrFun entries page).trans present)]
  | some entry =>
      have present' := (congrFun entries page).trans present
      rw [contentsOf_eq present, contentsOf_eq present'] at contents
      rw [supply_eq_find present, supply_eq_find present']
      cases source : entry.backing with
      | frame | swap =>
          rw [source] at contents
          exact contents
      | file id =>
          unfold find
          dsimp only
          rw [mappings]
          cases live : layout.mapping id with
          | none => rfl
          | some mapping =>
              unfold Mapping.readPage
              simp only [Option.bind_some, same id mapping ⟨entry, present, source⟩ live]

theorem contentsOf_congr {moved' : Layout} (first : layout.Supplies moved)
    (second : other.Supplies moved') (entries : moved'.entry = moved.entry)
    (supply : layout.supply moved.files page = other.supply moved'.files page) :
    moved.contentsOf page = moved'.contentsOf page := by
  have both : (moved'.contentsOf page).isSome = (moved.contentsOf page).isSome := by
    unfold contentsOf
    rw [entries]
    cases moved.entry page with
    | none => rfl
    | some entry =>
        obtain ⟨backing, _, _⟩ := entry
        cases backing <;> rfl
  cases holds : moved.contentsOf page with
  | none =>
      rw [holds] at both
      exact (Option.not_isSome_iff_eq_none.mp (by simp [both])).symm
  | some contents =>
      rw [holds] at both
      obtain ⟨contents', holds'⟩ := Option.isSome_iff_exists.mp both
      rw [holds', ← first page contents holds, ← second page contents' holds', supply]

end Layout
end DemandPaging
