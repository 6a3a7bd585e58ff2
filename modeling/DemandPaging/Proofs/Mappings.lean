import DemandPaging.Proofs.Vm
import DemandPaging.Vm.Mapping

/-!
Creation of mappings. A segment that is accepted gives every page of the new mapping an
entry, none of which was in use, and changes nothing else.
-/

namespace DemandPaging

variable {arch : Architecture} {tolerated : Violation → Prop}

namespace Mapping

variable {mapping : Mapping} {page : PageNumber}

/-- The entry of a page of the mapping that has not been touched. -/
def untouched (mapping : Mapping) : PageEntry :=
  { backing := .file mapping.id, writable := mapping.segment.writable, mapping := some mapping.id }

theorem mem_pages : page ∈ mapping.pages ↔ mapping.contains page = true := by
  simp only [pages, contains, List.mem_map, List.mem_range, Bool.and_eq_true, decide_eq_true_eq]
  constructor
  · rintro ⟨i, small, rfl⟩
    simp [small]
  · rintro ⟨above, small⟩
    exact ⟨page.value - mapping.base.value, small, Number.ext (by simp; omega)⟩

theorem nodup_pages (mapping : Mapping) : mapping.pages.Nodup := by
  refine List.Nodup.map_on ?_ List.nodup_range
  intro i _ j _ same
  have := congrArg Number.value same
  simpa using this

end Mapping

namespace Layout

variable {layout : Layout} {mapping : Mapping}

def extend (layout : Layout) (mapping : Mapping) : Layout :=
  { layout with
    entry := fun page =>
      if page.1 = mapping.owner ∧ mapping.contains page.2 then some mapping.untouched
      else layout.entry page
    mapping := Function.update layout.mapping mapping.id (some mapping) }

theorem extend_entry (layout : Layout) (mapping : Mapping) (page : UserPage) :
    (layout.extend mapping).entry page =
      if page.1 = mapping.owner ∧ mapping.contains page.2 then some mapping.untouched
      else layout.entry page := rfl

theorem extend_mapping (layout : Layout) (mapping : Mapping) (id : MappingId) :
    (layout.extend mapping).mapping id =
      if id = mapping.id then some mapping else layout.mapping id :=
  Function.update_apply layout.mapping mapping.id (some mapping) id

theorem extend_backs (layout : Layout) (page : UserPage) {backing : Backing}
    (exclusive : backing.IsExclusive)
    (free : ∀ page, mapping.contains page → layout.entry (mapping.owner, page) = none) :
    (layout.extend mapping).Backs page backing ↔ layout.Backs page backing := by
  unfold Backs
  rw [extend_entry]
  split
  · rename_i inside
    have absent : layout.entry page = none := by
      rw [← free page.2 inside.2, ← inside.1]
    rw [absent]
    refine ⟨?_, by rintro ⟨entry, ⟨⟩, _⟩⟩
    rintro ⟨entry, ⟨⟩, rfl⟩
    exact exclusive.elim
  · exact Iff.rfl

theorem Sound.extend (sound : layout.Sound tolerated) (fresh : layout.mapping mapping.id = none)
    (live : layout.live mapping.owner = true)
    (free : ∀ page, mapping.contains page → layout.entry (mapping.owner, page) = none)
    (ranges : ∀ page, mapping.contains page → ∀ violation,
      mapping.fileRange page = .error violation → tolerated violation) :
    (layout.extend mapping).Sound tolerated := by
  have other : ∀ id known, layout.mapping id = some known →
      (layout.extend mapping).mapping id = some known := by
    intro id known live
    rw [extend_mapping, if_neg]
    · exact live
    · rintro rfl
      exact absurd (fresh.symm.trans live) (by simp)
  refine ⟨?_, ?_, ?_, ?_⟩
  · intro page entry found
    rw [extend_entry] at found
    split at found
    · rename_i inside
      cases found
      refine ⟨fun exclusive => exclusive.elim, ?_, ?_, ?_⟩
      · rintro id ⟨⟩
        rfl
      · rintro id ⟨⟩
        exact ⟨mapping, by rw [extend_mapping, if_pos rfl], inside.1.symm, inside.2, rfl⟩
      · rintro slot id known ⟨⟩
    · have before := sound.admits page entry found
      refine ⟨?_, before.filed, ?_, ?_⟩
      · intro exclusive another apart
        rw [extend_backs layout another exclusive free]
        exact before.alone exclusive another apart
      · intro id belongs
        obtain ⟨known, live, rest⟩ := before.mapped id belongs
        exact ⟨known, other id known live, rest⟩
      · intro slot id known source belongs live
        obtain ⟨again, live', _⟩ := before.mapped id belongs
        have same := (other id again live').symm.trans live
        cases same
        exact before.kept slot id known source belongs live'
  · intro id known live
    rw [extend_mapping] at live
    split at live
    · rename_i same
      cases live
      exact same.symm
    · exact sound.named id known live
  · intro id known page live
    rw [extend_mapping] at live
    split at live
    · cases live
      exact ranges page
    · exact sound.ranges id known page live
  · intro id known named
    rw [extend_mapping] at named
    split at named
    · cases named
      exact live
    · exact sound.housed id known named

end Layout

namespace AddressSpace

variable {space : AddressSpace arch} {page : PageNumber}

theorem isAvailable_iff : space.isAvailable page = true ↔
    page.value < space.stackBottom.value ∧ space.entries[page]? = none := by
  unfold isAvailable
  rw [Bool.and_eq_true, decide_eq_true_eq, Bool.not_eq_true',
    NumberMap.contains_eq_false]

theorem firstUnavailable?_eq_none {base : PageNumber} {count : Nat}
    (all : space.firstUnavailable? base count = none) (i : Nat) (small : i < count) :
    space.isAvailable ⟨base.value + i⟩ = true := by
  induction count generalizing base i with
  | zero => exact absurd small (Nat.not_lt_zero i)
  | succ count ih =>
      unfold firstUnavailable? at all
      split at all
      · rename_i first
        cases i with
        | zero => exact first
        | succ i =>
            have later := ih all i (by omega)
            rwa [show base.value + 1 + i = base.value + (i + 1) by omega] at later
      · cases all

end AddressSpace

namespace Vm

variable {vm : Vm arch} {process : ProcessId} {space : AddressSpace arch} {mapping : Mapping}

/-- All pages of the mapping but the listed ones have an entry. -/
structure Installing (mapping : Mapping) (space : AddressSpace arch) (rest : List PageNumber)
    (installed : AddressSpace arch) : Prop where
  owner : installed.owner = space.owner
  stackBottom : installed.stackBottom = space.stackBottom
  directory : installed.directory = space.directory
  inside : ∀ page, page ∈ rest → page ∈ mapping.pages
  nodup : rest.Nodup
  entries : ∀ page, installed.entries[page]? =
    if mapping.contains page ∧ page ∉ rest then some mapping.untouched else space.entries[page]?

theorem installPages_satisfies
    (available : ∀ page, page ∈ mapping.pages → space.isAvailable page = true) :
    (installPages space mapping).Satisfies tolerated (Installing mapping space []) := by
  refine .foldlM (Installing mapping space) ⟨rfl, rfl, rfl, fun _ h => h, mapping.nodup_pages, ?_⟩ ?_
  · intro page
    simp [Mapping.mem_pages]
  · rintro page rest installed ⟨owner, bottom, directory, inside, nodup, entries⟩
    obtain ⟨fresh, nodup⟩ := List.nodup_cons.mp nodup
    have member := inside page List.mem_cons_self
    have free : installed.isAvailable page = true := by
      have before := AddressSpace.isAvailable_iff.mp (available page member)
      rw [AddressSpace.isAvailable_iff, bottom, entries, if_neg (by simp)]
      exact before
    unfold AddressSpace.installFile
    rw [if_pos free]
    refine .bind (.require rfl) fun _ _ => ?_
    refine .pure ⟨owner, bottom, directory, fun other later =>
      inside other (List.mem_cons_of_mem page later), nodup, ?_⟩
    intro other
    change (installed.entries.insert page _)[other]? = _
    rw [NumberMap.getElem?_insert, entries]
    by_cases same : other = page
    · subst same
      rw [if_pos rfl, if_pos ⟨Mapping.mem_pages.mp member, fresh⟩]
      rfl
    · simp [same]

theorem mappableLength_eq_ok {segment : Segment} {length : Nat}
    (accepted : mappableLength arch segment = .ok length) :
    length = segment.fileLength + segment.zeroLength ∧ segment.address.value ≠ 0 ∧
      segment.address.offset = 0 ∧ 0 < length ∧
        segment.address.value + length ≤ arch.userLimit := by
  unfold mappableLength Segment.length? Word.add? at accepted
  split at accepted
  · cases accepted
  · split at accepted
    · cases accepted
    · rename_i nonzero aligned
      split at accepted
      · cases accepted
      · rename_i sum
        split at sum
        · cases sum
          split at accepted
          · rename_i room
            cases accepted
            exact ⟨rfl, nonzero, not_not.mp aligned, room⟩
          · cases accepted
        · cases sum

end Vm

/-- The mapping that a segment becomes if it starts with a page. -/
def MappingTable.upcoming (table : MappingTable) (owner : ProcessId) (segment : Segment) :
    Mapping :=
  { id := ⟨table.lastId + 1⟩, owner, segment }

theorem MappingTable.next_eq (table : MappingTable) (owner : ProcessId) {segment : Segment}
    (aligned : segment.address.offset = 0) :
    table.next owner segment = .ok (table.upcoming owner segment) := by
  unfold Address.offset at aligned
  unfold MappingTable.next Address.isAligned
  rw [require, if_pos (by decide), Checked.ok_bind, pure_bind, aligned]
  rfl

namespace Tenants

variable {tenants : Tenants arch} {ownerOf : FrameNumber → Option UserPage}
  {space installed : AddressSpace arch} {mapping : Mapping}

def extend (tenants : Tenants arch) (mapping : Mapping) (installed : AddressSpace arch) :
    Tenants arch :=
  { tenants.setSpace mapping.owner installed with
    mappings := {
      mappings := tenants.mappings.mappings.insert mapping.id mapping
      lastId := mapping.id.value } }

theorem extend_layout (found : tenants.spaces[mapping.owner]? = some space)
    (installing : Vm.Installing mapping space [] installed) (contents : FrameNumber → Page) :
    (tenants.extend mapping installed).layout contents =
      (tenants.layout contents).extend mapping := by
  refine Layout.ext (setSpace_live found) (funext fun page => ?_) (funext fun page => ?_)
    rfl rfl rfl (funext fun id => ?_)
  · rw [Layout.extend_entry]
    change (tenants.setSpace mapping.owner installed).entryAt page = if _ then _ else
      tenants.entryAt page
    by_cases own : page.1 = mapping.owner
    · obtain ⟨_, number⟩ := page
      cases own
      rw [entryAt_of_space found, entryAt_of_space (by rw [setSpace_spaces, if_pos rfl]),
        installing.entries]
      simp
    · simp only [own, false_and, if_false]
      unfold entryAt
      rw [setSpace_spaces, if_neg own]
  · change (tenants.setSpace mapping.owner installed).dirtyAt page = tenants.dirtyAt page
    unfold dirtyAt
    rw [setSpace_spaces]
    split
    · rename_i own
      rw [own, found, Option.any_some, Option.any_some, installing.directory]
    · rfl
  · rw [Layout.extend_mapping]
    exact NumberMap.getElem?_insert tenants.mappings.mappings mapping.id id mapping

theorem Consistent.extend (consistent : tenants.Consistent tolerated ownerOf)
    (found : tenants.spaces[mapping.owner]? = some space)
    (installing : Vm.Installing mapping space [] installed)
    (fresh : tenants.mappings.lastId < mapping.id.value)
    (free : ∀ page, mapping.contains page → tenants.entryAt (mapping.owner, page) = none)
    (ranges : ∀ page, mapping.contains page → ∀ violation,
      mapping.fileRange page = .error violation → tolerated violation) :
    (tenants.extend mapping installed).Consistent tolerated ownerOf := by
  have layout := extend_layout found installing
  have unused : tenants.mappings.get? mapping.id = none := by
    cases live : tenants.mappings.get? mapping.id with
    | none => rfl
    | some known => exact absurd (consistent.numbered _ _ live) (Nat.not_le.mpr fresh)
  have backs : ∀ (page : UserPage) (backing : Backing), backing.IsExclusive →
      ((∃ entry, (tenants.extend mapping installed).entryAt page = some entry ∧
        entry.backing = backing) ↔
          ∃ entry, tenants.entryAt page = some entry ∧ entry.backing = backing) := by
    intro page backing exclusive
    have same := Layout.extend_backs (tenants.layout fun _ => Page.zero) page exclusive free
    rw [← layout] at same
    exact same
  refine ⟨?_, ?_, ?_, consistent.swap, ?_, ?_⟩
  · intro contents
    rw [layout]
    exact (consistent.sound contents).extend unused (live_iff.mpr ⟨space, found⟩) free ranges
  · intro process another
    change (tenants.setSpace mapping.owner installed).spaces[process]? = some another → _
    rw [setSpace_spaces]
    split
    · rintro ⟨⟩
      rename_i own
      obtain ⟨owner, coherent⟩ := consistent.spaces _ _ found
      refine ⟨(installing.owner.trans owner).trans own.symm, fun page => ?_⟩
      rw [installing.directory, installing.entries, coherent]
      by_cases inside : mapping.contains page = true
      · have absent := (entryAt_of_space found page).symm.trans (free page inside)
        rw [absent, if_pos ⟨inside, by simp⟩]
        rfl
      · rw [if_neg (fun h => inside h.1)]
    · exact consistent.spaces process another
  · intro frame page
    rw [consistent.owners, backs page (.frame frame) trivial]
  · intro slot
    simp only [backs _ (.swap slot) trivial]
    exact consistent.slots slot
  · intro id known live
    change (tenants.mappings.mappings.insert mapping.id mapping)[id]? = some known at live
    rw [NumberMap.getElem?_insert] at live
    split at live
    · rename_i same
      exact Nat.le_of_eq (congrArg Number.value same)
    · exact Nat.le_of_lt (Nat.lt_of_le_of_lt (consistent.numbered id known live) fresh)

end Tenants

namespace Vm

variable {vm : Vm arch} {process : ProcessId}

/-- The pages of a mapping are available to its owner, and have been installed. -/
structure Installs (vm : Vm arch) (mapping : Mapping) (after : Vm arch) : Prop where
  accepted : ∃ length, mappableLength arch mapping.segment = .ok length
  installs : ∃ space installed, vm.spaces[mapping.owner]? = some space ∧
    (∀ page, mapping.contains page → space.isAvailable page = true) ∧
      Installing mapping space [] installed ∧
        after = { vm with toTenants := vm.toTenants.extend mapping installed }

/-- A segment is refused, with nothing changed, or becomes a mapping whose pages are installed;
this breaks no rule, as the number of the mapping is new. -/
theorem mapSegment_installs (unused : vm.mappings.get? ⟨vm.mappings.lastId + 1⟩ = none)
    (process : ProcessId) (segment : Segment) :
    (vm.mapSegment process segment).Satisfies (fun _ => False) fun (result, after) =>
      match result with
      | .error _ => after = vm
      | .ok id => id = ⟨vm.mappings.lastId + 1⟩ ∧
          vm.Installs (vm.mappings.upcoming process segment) after := by
  unfold mapSegment
  cases accepted : mappableLength arch segment with
  | error cause => exact .pure rfl
  | ok length =>
      dsimp only
      cases found : vm.spaces[process]? with
      | none => exact .pure rfl
      | some space =>
          dsimp only
          cases all : space.firstUnavailable? segment.address.page (pagesFor length) with
          | some page => exact .pure rfl
          | none =>
              have available : ∀ page, page ∈ (vm.mappings.upcoming process segment).pages →
                  space.isAvailable page = true := by
                intro page member
                obtain ⟨i, small, rfl⟩ := List.mem_map.mp member
                rw [List.mem_range] at small
                refine AddressSpace.firstUnavailable?_eq_none all i ?_
                rw [(mappableLength_eq_ok accepted).1]
                exact small
              have aligned := (mappableLength_eq_ok accepted).2.2.1
              refine .bind (.lift (.of_eq (vm.mappings.next_eq process aligned) rfl)) ?_
              rintro _ rfl
              refine .bind (.lift (installPages_satisfies available)) fun installed installing => ?_
              refine .bind .log fun _ _ => ?_
              refine .bind (.lift (.bind (.require ?_) fun _ _ => .pure rfl)) ?_
              · rw [Std.ExtTreeMap.mem_iff_isSome_getElem?, Option.not_isSome_iff_eq_none]
                exact unused
              · rintro mappings rfl
                exact .pure ⟨rfl, ⟨length, accepted⟩, space, installed, found,
                  fun page inside => available page (Mapping.mem_pages.mpr inside), installing,
                  rfl⟩

theorem Consistent.next_unused (consistent : vm.Consistent tolerated) :
    vm.mappings.get? ⟨vm.mappings.lastId + 1⟩ = none := by
  cases live : vm.mappings.get? ⟨vm.mappings.lastId + 1⟩ with
  | none => rfl
  | some known => exact absurd (consistent.tenants.numbered _ _ live) (Nat.not_succ_le_self _)

/-- A mapping is either refused, with nothing changed, or added with untouched pages. -/
theorem mapSegment_satisfies (consistent : vm.Consistent tolerated) {segment : Segment}
    (ranges : ∀ (mapping : Mapping) page, mapping.segment = segment → mapping.contains page →
      ∀ violation, mapping.fileRange page = .error violation → tolerated violation) :
    (vm.mapSegment process segment).Satisfies tolerated fun (result, after) =>
      match result with
      | .error _ => after = vm
      | .ok id => after.stack = vm.stack ∧ after.Consistent tolerated ∧
          vm.layout.live process = true ∧ (∃ length, mappableLength arch segment = .ok length) ∧
          ∃ mapping : Mapping, mapping.id = id ∧ mapping.owner = process ∧
            mapping.segment = segment ∧ vm.layout.mapping id = none ∧
            (∀ page, mapping.contains page → vm.layout.entry (mapping.owner, page) = none) ∧
              after.layout = vm.layout.extend mapping := by
  refine .mono ((mapSegment_installs consistent.next_unused process segment).weaken
    fun _ => False.elim) ?_
  rintro ⟨result, after⟩ outcome
  cases result with
  | error cause => exact outcome
  | ok id =>
      obtain ⟨rfl, accepted, space, installed, found, available, installing, rfl⟩ := outcome
      have free : ∀ page, (vm.mappings.upcoming process segment).contains page →
          vm.layout.entry (process, page) = none := fun page inside =>
        (Tenants.entryAt_of_space found page).trans
          (AddressSpace.isAvailable_iff.mp (available page inside)).2
      refine ⟨rfl, ⟨consistent.frames, ?_⟩, Tenants.live_iff.mpr ⟨space, found⟩, accepted,
        vm.mappings.upcoming process segment, rfl, rfl, rfl, consistent.next_unused, free, ?_⟩
      · exact consistent.tenants.extend found installing (Nat.lt_succ_self _) free
          (ranges _ · rfl)
      · exact Tenants.extend_layout found installing vm.frames.pool.page

end Vm
end DemandPaging
