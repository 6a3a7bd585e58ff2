import DemandPaging.Proofs.AddressSpace
import DemandPaging.Proofs.Files
import DemandPaging.Proofs.Layout
import DemandPaging.Proofs.Swap
import DemandPaging.Tenants

/-!
Tenants that agree with the stores they use. The owner the frame table knows of a frame is
the page whose entry has that frame, the allocated slots are those that some entry has,
and the layout of contents is sound. Moving a page out of its frame keeps all of this, for
a frame table that forgets the owner.
-/

namespace DemandPaging

variable {arch : Architecture} {tolerated : Violation → Prop}

namespace Tenants

variable {tenants : Tenants arch} {ownerOf : FrameNumber → Option UserPage}
  {process : ProcessId} {space placed : AddressSpace arch} {page : PageNumber}
  {entry : Option PageEntry}

def entryAt (tenants : Tenants arch) (page : UserPage) : Option PageEntry :=
  tenants.spaces[page.1]?.bind fun space => space.entries[page.2]?

/-- Whether a page has a translation with a set dirty bit. -/
def dirtyAt (tenants : Tenants arch) (page : UserPage) : Bool :=
  tenants.spaces[page.1]?.any fun space => space.directory.isDirty page.2

def layout (tenants : Tenants arch) (contents : FrameNumber → Page) : Layout where
  live := tenants.spaces.contains
  entry := tenants.entryAt
  dirty := tenants.dirtyAt
  frame := contents
  slot := tenants.swap.page
  files := tenants.files
  mapping := tenants.mappings.get?

/-- The tenants, the owners of frames and the allocated slots agree. -/
structure Consistent (tolerated : Violation → Prop) (ownerOf : FrameNumber → Option UserPage)
    (tenants : Tenants arch) : Prop where
  sound : ∀ contents, (tenants.layout contents).Sound tolerated
  spaces : ∀ (process : ProcessId) (space : AddressSpace arch),
    tenants.spaces[process]? = some space → space.owner = process ∧ space.Coherent
  owners : ∀ frame page, ownerOf frame = some page ↔
    ∃ entry, tenants.entryAt page = some entry ∧ entry.backing = .frame frame
  swap : tenants.swap.WellFormed
  slots : ∀ slot, tenants.swap.isAllocated slot = true ↔
    ∃ page entry, tenants.entryAt page = some entry ∧ entry.backing = .swap slot
  numbered : ∀ id mapping, tenants.mappings.get? id = some mapping →
    id.value ≤ tenants.mappings.lastId

theorem entryAt_of_space (found : tenants.spaces[process]? = some space) (page : PageNumber) :
    tenants.entryAt (process, page) = space.entries[page]? := by
  unfold entryAt
  rw [found]
  rfl

theorem dirtyAt_of_space (found : tenants.spaces[process]? = some space) (page : PageNumber) :
    tenants.dirtyAt (process, page) = space.directory.isDirty page := by
  unfold dirtyAt
  rw [found]
  rfl

theorem space_of_entryAt {page : UserPage} {entry : PageEntry}
    (found : tenants.entryAt page = some entry) :
    ∃ space, tenants.spaces[page.1]? = some space ∧ space.entries[page.2]? = some entry :=
  Option.bind_eq_some_iff.mp found

theorem live_iff : tenants.spaces.contains process = true ↔
    ∃ space, tenants.spaces[process]? = some space := by
  rw [← Std.ExtTreeMap.isSome_getElem?_eq_contains, Option.isSome_iff_exists]

theorem setSpace_spaces (tenants : Tenants arch) (process other : ProcessId)
    (space : AddressSpace arch) : (tenants.setSpace process space).spaces[other]? =
      if other = process then some space else tenants.spaces[other]? :=
  NumberMap.getElem?_insert tenants.spaces process other space

theorem setSpace_live (found : tenants.spaces[process]? = some space) :
    (tenants.setSpace process placed).spaces.contains = tenants.spaces.contains := by
  funext other
  rw [← Std.ExtTreeMap.isSome_getElem?_eq_contains, setSpace_spaces,
    ← Std.ExtTreeMap.isSome_getElem?_eq_contains]
  split
  · rename_i same
    rw [same, found]
    rfl
  · rfl

private theorem apart_of_owner {other : UserPage} (differs : other.1 ≠ process) :
    other ≠ (process, page) :=
  fun same => differs (congrArg Prod.fst same)

theorem setSpace_entryAt (tenants : Tenants arch)
    (found : tenants.spaces[process]? = some space)
    (places : space.Places page entry placed) (other : UserPage) :
    (tenants.setSpace process placed).entryAt other =
      if other = (process, page) then entry else tenants.entryAt other := by
  by_cases own : other.1 = process
  · obtain ⟨_, number⟩ := other
    cases own
    rw [entryAt_of_space found, entryAt_of_space (by rw [setSpace_spaces, if_pos rfl]),
      places.entries]
    simp
  · rw [if_neg (apart_of_owner own)]
    unfold entryAt
    rw [setSpace_spaces, if_neg own]

theorem setSpace_dirtyAt (tenants : Tenants arch)
    (found : tenants.spaces[process]? = some space)
    (places : space.Places page entry placed) (other : UserPage) :
    (tenants.setSpace process placed).dirtyAt other =
      if other = (process, page) then false else tenants.dirtyAt other := by
  by_cases own : other.1 = process
  · obtain ⟨_, number⟩ := other
    cases own
    rw [dirtyAt_of_space found, dirtyAt_of_space (by rw [setSpace_spaces, if_pos rfl]),
      places.dirty]
    simp
  · rw [if_neg (apart_of_owner own)]
    unfold dirtyAt
    rw [setSpace_spaces, if_neg own]

theorem setSpace_layout (tenants : Tenants arch)
    (found : tenants.spaces[process]? = some space)
    (places : space.Places page entry placed) (contents : FrameNumber → Page) :
    (tenants.setSpace process placed).layout contents =
      (tenants.layout contents).place (process, page) entry := by
  refine Layout.ext (setSpace_live found) (funext fun other => ?_) (funext fun other => ?_)
    rfl rfl rfl rfl
  · rw [Layout.place_entry]
    exact setSpace_entryAt tenants found places other
  · exact (setSpace_dirtyAt tenants found places other).trans (Function.update_apply _ _ _ _).symm

theorem restore_layout (tenants : Tenants arch) (swap : SwapTable) (files : FileStore)
    (contents : FrameNumber → Page) :
    ({ tenants with swap, files } : Tenants arch).layout contents =
      { tenants.layout contents with slot := swap.page, files } := rfl

theorem setSpace_backs (found : tenants.spaces[process]? = some space)
    (places : space.Places page entry placed) {swap : SwapTable} {files : FileStore}
    {contents : FrameNumber → Page}
    (sound : ((({ tenants with swap, files } : Tenants arch).setSpace process placed).layout
      contents).Sound tolerated)
    (other : UserPage) (backing : Backing) (exclusive : backing.IsExclusive) :
    (∃ present, (({ tenants with swap, files } : Tenants arch).setSpace process placed).entryAt
      other = some present ∧ present.backing = backing) ↔
        if ∃ placed, entry = some placed ∧ placed.backing = backing then other = (process, page)
        else other ≠ (process, page) ∧
          ∃ present, tenants.entryAt other = some present ∧ present.backing = backing := by
  have place := setSpace_layout { tenants with swap, files } found places contents
  rw [place] at sound
  refine Iff.trans ?_ (sound.backs_place_iff exclusive)
  rw [← place]
  rfl

namespace Consistent

theorem restore (consistent : tenants.Consistent tolerated ownerOf) {swap : SwapTable}
    (wellFormed : swap.WellFormed)
    (allocated : ∀ slot, swap.isAllocated slot = true ↔ tenants.swap.isAllocated slot = true)
    (files : FileStore) :
    ({ tenants with swap, files } : Tenants arch).Consistent tolerated ownerOf := by
  obtain ⟨sound, spaces, owners, _, slots, numbered⟩ := consistent
  refine ⟨fun contents => (sound contents).congr rfl rfl rfl, spaces, owners, wellFormed, ?_, numbered⟩
  intro slot
  exact (allocated slot).trans (slots slot)

theorem place (consistent : tenants.Consistent tolerated ownerOf)
    (found : tenants.spaces[process]? = some space) (places : space.Places page entry placed)
    {swap : SwapTable} {files : FileStore} {owners : FrameNumber → Option UserPage}
    (contents : FrameNumber → Page)
    (sound : ((({ tenants with swap, files } : Tenants arch).setSpace process placed).layout
      contents).Sound tolerated)
    (wellFormed : swap.WellFormed)
    (owned : ∀ frame, owners frame =
      if entry.bind PageEntry.frame? = some frame then some (process, page)
      else if ownerOf frame = some (process, page) then none else ownerOf frame)
    (allocated : ∀ slot, swap.isAllocated slot = true ↔
      (∃ placed, entry = some placed ∧ placed.backing = .swap slot) ∨
        tenants.swap.isAllocated slot = true ∧
          ∀ present, tenants.entryAt (process, page) = some present →
            present.backing ≠ .swap slot) :
    (({ tenants with swap, files } : Tenants arch).setSpace process placed).Consistent
      tolerated owners := by
  have backs := setSpace_backs found places sound
  refine ⟨fun other => sound.congr rfl rfl rfl, ?_, ?_, wellFormed, ?_, consistent.numbered⟩
  · intro other another
    rw [setSpace_spaces]
    split
    · rintro ⟨⟩
      rename_i same
      subst same
      exact ⟨places.owner.trans (consistent.spaces _ _ found).1, places.coherent⟩
    · exact consistent.spaces other another
  · intro frame other
    rw [owned, backs other (.frame frame) trivial]
    have here : entry.bind PageEntry.frame? = some frame ↔
        ∃ placed, entry = some placed ∧ placed.backing = .frame frame := by
      simp [Option.bind_eq_some_iff, PageEntry.frame?_eq_some]
    have before := consistent.owners frame other
    by_cases fills : ∃ placed, entry = some placed ∧ placed.backing = .frame frame
    · rw [if_pos fills, if_pos (here.mpr fills), Option.some.injEq, eq_comm]
    · rw [if_neg fills, if_neg (mt here.mp fills), ← before]
      by_cases mine : ownerOf frame = some (process, page)
      · rw [if_pos mine, mine, Option.some.injEq]
        exact ⟨fun h => (nomatch h), fun h => absurd h.2.symm h.1⟩
      · rw [if_neg mine]
        refine ⟨fun h => ⟨?_, h⟩, fun h => h.2⟩
        rintro rfl
        exact mine h
  · intro slot
    simp only [backs _ (.swap slot) trivial]
    refine (allocated slot).trans ?_
    by_cases fills : ∃ placed, entry = some placed ∧ placed.backing = .swap slot
    · simp [fills]
    · simp only [fills, if_false, false_or]
      constructor
      · rintro ⟨used, freed⟩
        obtain ⟨other, present, found', source⟩ := (consistent.slots slot).mp used
        refine ⟨other, ?_, present, found', source⟩
        rintro rfl
        exact freed present found' source
      · rintro ⟨other, apart, present, found', source⟩
        refine ⟨(consistent.slots slot).mpr ⟨other, present, found', source⟩, ?_⟩
        intro mine listed shared
        exact apart ((consistent.sound contents).unique (.swap slot) trivial
          ⟨mine, listed, shared⟩ ⟨present, found', source⟩)

end Consistent

theorem redirect_entryAt (found : tenants.spaces[process]? = some space)
    (directory : PageDirectory arch) :
    (tenants.setSpace process { space with directory }).entryAt = tenants.entryAt := by
  funext other
  unfold entryAt
  rw [setSpace_spaces]
  split
  · rename_i same
    rw [same, found]
    rfl
  · rfl

theorem redirect_dirtyAt (tenants : Tenants arch) (process : ProcessId)
    (space : AddressSpace arch) (directory : PageDirectory arch) (other : UserPage) :
    (tenants.setSpace process { space with directory }).dirtyAt other =
      if other.1 = process then directory.isDirty other.2 else tenants.dirtyAt other := by
  unfold dirtyAt
  rw [setSpace_spaces]
  split <;> rfl

theorem Consistent.redirect (consistent : tenants.Consistent tolerated ownerOf)
    (found : tenants.spaces[process]? = some space) {directory : PageDirectory arch}
    (routes : ∀ page, directory.route page = space.directory.route page) :
    (tenants.setSpace process { space with directory }).Consistent tolerated ownerOf := by
  have entries := redirect_entryAt found directory
  obtain ⟨sound, spaces, owners, swap, slots, numbered⟩ := consistent
  refine ⟨?_, ?_, ?_, swap, ?_, numbered⟩
  · intro contents
    exact (sound contents).congr (setSpace_live found) entries rfl
  · intro other another
    rw [setSpace_spaces]
    split
    · rintro ⟨⟩
      rename_i same
      subst same
      refine ⟨(spaces _ _ found).1, fun page => ?_⟩
      exact (routes page).trans ((spaces _ _ found).2 page)
    · exact spaces other another
  · rwa [entries]
  · rwa [entries]

/-- Whether a page has a translation with a set accessed bit. -/
def accessedAt (tenants : Tenants arch) (page : UserPage) : Bool :=
  tenants.spaces[page.1]?.any fun space => space.directory.isAccessed page.2

theorem testAndClearAccessed_accessedAt (tenants : Tenants arch) (owner : UserPage) :
    (tenants.testAndClearAccessed owner.1 owner.2).1 = tenants.accessedAt owner ∧
      ∀ other, (tenants.testAndClearAccessed owner.1 owner.2).2.accessedAt other =
        if other = owner then false else tenants.accessedAt other := by
  obtain ⟨process, page⟩ := owner
  unfold testAndClearAccessed
  cases found : tenants.spaces[process]? with
  | none =>
      have silent : tenants.accessedAt (process, page) = false := by
        unfold accessedAt
        rw [found]
        rfl
      refine ⟨silent.symm, fun other => ?_⟩
      by_cases same : other = (process, page)
      · rw [if_pos same, same]
        exact silent
      · rw [if_neg same]
  | some space =>
      have accessed := space.directory.testAndClearAccessed_isAccessed page
      refine ⟨?_, fun other => ?_⟩
      · unfold accessedAt
        rw [found]
        exact space.directory.testAndClearAccessed_fst page
      · unfold accessedAt
        rw [setSpace_spaces]
        by_cases own : other.1 = process
        · obtain ⟨_, number⟩ := other
          cases own
          rw [if_pos rfl, found]
          simpa using accessed number
        · rw [if_neg own, if_neg (apart_of_owner own)]

/-- Asking whether a page was accessed clears its accessed bit and changes nothing else. -/
theorem testAndClearAccessed_spec (consistent : tenants.Consistent tolerated ownerOf)
    (owner : UserPage) :
    (tenants.testAndClearAccessed owner.1 owner.2).1 = tenants.accessedAt owner ∧
      (tenants.testAndClearAccessed owner.1 owner.2).2.Consistent tolerated ownerOf ∧
      (∀ contents, (tenants.testAndClearAccessed owner.1 owner.2).2.layout contents =
        tenants.layout contents) ∧
      ∀ other, (tenants.testAndClearAccessed owner.1 owner.2).2.accessedAt other =
        if other = owner then false else tenants.accessedAt other := by
  obtain ⟨answer, cleared⟩ := tenants.testAndClearAccessed_accessedAt owner
  obtain ⟨process, page⟩ := owner
  have kept : (tenants.testAndClearAccessed process page).2.Consistent tolerated ownerOf ∧
      ∀ contents, (tenants.testAndClearAccessed process page).2.layout contents =
        tenants.layout contents := by
    unfold testAndClearAccessed
    cases found : tenants.spaces[process]? with
    | none => exact ⟨consistent, fun _ => rfl⟩
    | some space =>
        have routes := space.directory.testAndClearAccessed_route page
        have dirty := space.directory.testAndClearAccessed_isDirty page
        refine ⟨consistent.redirect found routes, fun contents => ?_⟩
        refine Layout.ext (setSpace_live found) (redirect_entryAt found _) (funext fun other => ?_)
          rfl rfl rfl rfl
        refine (redirect_dirtyAt tenants process space _ other).trans ?_
        split
        · rename_i same
          subst same
          exact (dirty other.2).trans (dirtyAt_of_space found other.2).symm
        · rfl
  exact ⟨answer, kept.1, kept.2, cleared⟩

theorem mappingOf?_eq {entry : PageEntry} (listed : space.entries[page]? = some entry) :
    tenants.mappingOf? space page = entry.mapping.bind tenants.mappings.get? := by
  unfold mappingOf?
  rw [listed]
  rfl

section Evict

variable {unranged : Violation → Prop} {entry : PageEntry} {frame : FrameNumber}
  {contents : FrameNumber → Page}

/-- What becomes of the tenants when a page is asked to leave its frame: contents are moved,
and the frame is vacated unless the answer is a refusal. -/
def Vacates (tolerated : Violation → Prop) (ownerOf : FrameNumber → Option UserPage)
    (contents : FrameNumber → Page) (tenants : Tenants arch) (frame : FrameNumber)
    (answer : Except VmError Unit × Tenants arch) : Prop :=
  Relation.ReflTransGen Shift (tenants.layout contents) (answer.2.layout contents) ∧
    match answer.1 with
    | .ok () => answer.2.Consistent tolerated (Function.update ownerOf frame none)
    | .error _ => answer.2.Consistent tolerated ownerOf

theorem Consistent.forget (consistent : tenants.Consistent tolerated ownerOf)
    (present : tenants.entryAt (process, page) = some entry)
    (resident : entry.backing = .frame frame) {left : Option PageEntry}
    (elsewhere : left.bind PageEntry.frame? = none) (other : FrameNumber) :
    Function.update ownerOf frame none other =
      if left.bind PageEntry.frame? = some other then some (process, page)
      else if ownerOf other = some (process, page) then none else ownerOf other := by
  rw [elsewhere, if_neg (by simp : ¬(none : Option FrameNumber) = some other),
    Function.update_apply]
  by_cases same : other = frame
  · subst same
    rw [if_pos rfl, if_pos ((consistent.owners _ _).mpr ⟨entry, present, resident⟩)]
  · rw [if_neg same, if_neg]
    intro owned
    obtain ⟨again, found, source⟩ := (consistent.owners _ _).mp owned
    rw [present] at found
    cases found
    exact same (Backing.frame.inj (source.symm.trans resident))

theorem Consistent.idle_slot (consistent : tenants.Consistent tolerated ownerOf)
    {slot : SwapSlot} (free : tenants.swap.isAllocated slot = false)
    (contents : FrameNumber → Page) (page : UserPage) :
    ¬(tenants.layout contents).Backs page (.swap slot) := by
  rintro ⟨entry, found, source⟩
  have used := (consistent.slots slot).mpr ⟨page, entry, found, source⟩
  exact absurd (used.symm.trans free) (by decide)

theorem stored_layout {swap : SwapTable} {slot : SwapSlot} {written : Page}
    (pages : swap.page = Function.update tenants.swap.page slot written) :
    ({ tenants with swap } : Tenants arch).layout contents =
      (tenants.layout contents).fillSlot slot written := by
  unfold Layout.fillSlot
  change _ = { tenants.layout contents with slot := Function.update tenants.swap.page slot written }
  rw [← pages]
  rfl

theorem evictToSwap_vacates (consistent : tenants.Consistent unranged ownerOf)
    (found : tenants.spaces[process]? = some space)
    (listed : space.entries[page]? = some entry) (resident : entry.backing = .frame frame)
    (kept : ∀ id mapping, entry.mapping = some id → tenants.mappings.get? id = some mapping →
      mapping.evictsToFile page = .ok false) :
    (tenants.evictToSwap process space page (contents frame)).Satisfies tolerated
      (tenants.Vacates unranged ownerOf contents frame) := by
  have present := (entryAt_of_space found page).trans listed
  have coherent := (consistent.spaces process space found).2
  unfold evictToSwap
  refine .bind (SwapTable.store_satisfies consistent.swap (contents frame)) ?_
  rintro ⟨result, swap⟩ ⟨wellFormed, stored⟩
  have scratch := Shift.scratchSlot (tenants.layout contents)
  cases result with
  | error cause =>
      obtain ⟨allocated, slot, garbage, free, pages⟩ := stored
      have step := scratch slot garbage (consistent.idle_slot free contents)
      rw [← stored_layout pages] at step
      exact .pure ⟨.single step, consistent.restore wellFormed allocated tenants.files⟩
  | ok slot =>
      obtain ⟨free, allocated, pages⟩ := stored
      have write := scratch slot (contents frame) (consistent.idle_slot free contents)
      have move := Shift.toSwap ((tenants.layout contents).fillSlot slot (contents frame))
        (process, page) entry frame slot present resident
        (fun other => Layout.backs_fillSlot.not.mpr (consistent.idle_slot free contents other))
        (Function.update_self _ _ _) kept
      have sound := ((consistent.sound contents).shift write).shift move
      refine .bind (.lift (AddressSpace.evictToSwap_satisfies coherent listed resident slot)) ?_
      rintro ⟨_, placed⟩ places
      have layout := setSpace_layout { tenants with swap } found places contents
      rw [stored_layout pages] at layout
      rw [← layout] at sound move
      refine .pure ⟨.tail (.single write) move, consistent.place found places contents sound
        wellFormed (consistent.forget present resident rfl) ?_⟩
      · intro other
        rw [allocated]
        constructor
        · rintro (rfl | used)
          · exact .inl ⟨_, rfl, rfl⟩
          · refine .inr ⟨used, fun again found' => ?_⟩
            rw [present] at found'
            cases found'
            rw [resident]
            simp
        · rintro (⟨_, ⟨⟩, ⟨⟩⟩ | ⟨used, _⟩)
          · exact .inl rfl
          · exact .inr used

theorem Vacates.head {moved : Tenants arch} {answer : Except VmError Unit × Tenants arch}
    (vacates : moved.Vacates tolerated ownerOf contents frame answer)
    (step : Shift (tenants.layout contents) (moved.layout contents)) :
    tenants.Vacates tolerated ownerOf contents frame answer :=
  ⟨.head step vacates.1, vacates.2⟩

theorem leaveToFile_vacates (consistent : tenants.Consistent unranged ownerOf)
    (found : tenants.spaces[process]? = some space)
    (listed : space.entries[page]? = some entry) (resident : entry.backing = .frame frame)
    {id : MappingId} {mapping : Mapping} (belongs : entry.mapping = some id)
    (live : tenants.mappings.get? id = some mapping) (filed : mapping.evictsToFile page = .ok true)
    (contents : FrameNumber → Page) (saved : space.directory.isDirty page = true → ∃ files,
      mapping.writePage files page (contents frame) = .ok (.ok (), tenants.files)) :
    (space.evictToFile page).Satisfies tolerated fun (_, placed) =>
      tenants.Vacates unranged ownerOf contents frame
        (.ok (), tenants.setSpace process placed) := by
  have present := (entryAt_of_space found page).trans listed
  have coherent := (consistent.spaces process space found).2
  have move := Shift.toFile (tenants.layout contents) (process, page) entry frame id mapping
    present resident belongs live filed (fun dirty =>
      saved ((dirtyAt_of_space found page).symm.trans dirty))
  have sound := (consistent.sound contents).shift move
  refine .mono (AddressSpace.evictToFile_satisfies coherent listed resident belongs) ?_
  rintro ⟨_, placed⟩ places
  rw [← setSpace_layout tenants found places] at sound move
  refine ⟨.single move, consistent.place found places contents sound consistent.swap
    (consistent.forget present resident rfl) fun slot => ?_⟩
  constructor
  · intro used
    refine .inr ⟨used, fun again found' => ?_⟩
    rw [present] at found'
    cases found'
    rw [resident]
    simp
  · rintro (⟨_, ⟨⟩, ⟨⟩⟩ | ⟨used, _⟩)
    exact used

theorem evictToFile_vacates (consistent : tenants.Consistent unranged ownerOf)
    (found : tenants.spaces[process]? = some space)
    (listed : space.entries[page]? = some entry) (resident : entry.backing = .frame frame)
    {id : MappingId} {mapping : Mapping} (belongs : entry.mapping = some id)
    (live : tenants.mappings.get? id = some mapping)
    (filed : mapping.evictsToFile page = .ok true)
    (range : ∀ violation, mapping.fileRange page = .error violation → tolerated violation) :
    (tenants.evictToFile process space mapping page (contents frame)).Satisfies tolerated
      (tenants.Vacates unranged ownerOf contents frame) := by
  have present := (entryAt_of_space found page).trans listed
  unfold evictToFile
  by_cases dirty : space.directory.isDirty page = true
  · rw [if_pos dirty]
    refine .bind (.lift (.of_errors fun violation failed =>
      range violation (Mapping.writePage_eq_error failed))) ?_
    rintro ⟨result, files⟩ written
    have write := Shift.writeBack (tenants.layout contents) (process, page) entry frame id mapping
      result files present resident belongs live written
    have consistent' := consistent.restore consistent.swap (fun _ => Iff.rfl) files
    cases result with
    | error cause => exact .pure ⟨.single write, consistent'⟩
    | ok _ =>
        refine .bind (.lift (leaveToFile_vacates consistent' found listed resident belongs live filed
          contents fun _ => ⟨_, written⟩)) ?_
        rintro ⟨_, placed⟩ vacates
        exact .pure (vacates.head write)
  · rw [if_neg dirty, pure_bind]
    refine .bind (.lift (leaveToFile_vacates consistent found listed resident belongs live filed
      contents fun again => absurd again dirty)) ?_
    rintro ⟨_, placed⟩ vacates
    exact .pure vacates

/-- Asking an owner to give up a frame that holds its page; no other page matters for whether
that can be done. -/
theorem evict_vacates_of_range (consistent : tenants.Consistent unranged ownerOf)
    {owner : UserPage} (owned : ownerOf frame = some owner)
    (range : ∀ entry id mapping, tenants.entryAt owner = some entry → entry.mapping = some id →
      tenants.mappings.get? id = some mapping → ∀ violation,
        mapping.fileRange owner.2 = .error violation → tolerated violation) :
    (tenants.evict owner.1 owner.2 (contents frame)).Satisfies tolerated
      (tenants.Vacates unranged ownerOf contents frame) := by
  obtain ⟨process, page⟩ := owner
  obtain ⟨entry, present, resident⟩ := (consistent.owners frame _).mp owned
  obtain ⟨space, found, listed⟩ := space_of_entryAt present
  have admits := (consistent.sound contents).admits _ entry present
  unfold evict
  simp only [found, mappingOf?_eq listed]
  cases belongs : entry.mapping with
  | none =>
      refine evictToSwap_vacates consistent found listed resident ?_
      intro id mapping named
      rw [belongs] at named
      cases named
  | some id =>
      obtain ⟨mapping, live, _⟩ := admits.mapped id belongs
      change tenants.mappings.get? id = some mapping at live
      have range := range entry id mapping present belongs live
      simp only [Option.bind_some, live]
      refine .bind (.lift (.of_errors fun violation failed =>
        range violation (Mapping.evictsToFile_eq_error failed))) ?_
      intro filed decided
      cases filed with
      | true => exact evictToFile_vacates consistent found listed resident belongs live decided range
      | false =>
          refine evictToSwap_vacates consistent found listed resident ?_
          intro other another named again
          rw [belongs] at named
          cases named
          rw [live] at again
          cases again
          exact decided

theorem evict_vacates (consistent : tenants.Consistent tolerated ownerOf) {owner : UserPage}
    (owned : ownerOf frame = some owner) :
    (tenants.evict owner.1 owner.2 (contents frame)).Satisfies tolerated
      (tenants.Vacates tolerated ownerOf contents frame) := by
  refine evict_vacates_of_range consistent owned fun entry id mapping present belongs live => ?_
  obtain ⟨again, live', _, inside, _⟩ :=
    ((consistent.sound contents).admits _ entry present).mapped id belongs
  cases live.symm.trans live'
  exact (consistent.sound contents).ranges id mapping owner.2 live inside

end Evict

end Tenants
end DemandPaging
