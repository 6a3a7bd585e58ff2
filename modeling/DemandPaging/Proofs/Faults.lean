import DemandPaging.Proofs.Vm
import DemandPaging.Vm.Fault

/-!
Resolution of faults. A fault either changes nothing, or moves pages around until a frame
is free and then, if the source can be read, brings the page into it with the contents of
its source. A slot is given up only for a page that has been read from it.
-/

namespace DemandPaging

variable {arch : Architecture} {tolerated : Violation → Prop}

namespace Tenants

variable {tenants : Tenants arch} {ownerOf : FrameNumber → Option UserPage}
  {process : ProcessId} {space placed : AddressSpace arch} {page : PageNumber}
  {entry : PageEntry} {frame : FrameNumber}

theorem Consistent.enter
    (consistent : tenants.Consistent tolerated (Function.update ownerOf frame none))
    (owned : ownerOf frame = some (process, page)) (found : tenants.spaces[process]? = some space)
    (elsewhere : ∀ present, tenants.entryAt (process, page) = some present →
      present.isResident = false)
    (resident : entry.backing = .frame frame) (places : space.Places page (some entry) placed)
    {swap : SwapTable} (wellFormed : swap.WellFormed) (pages : swap.page = tenants.swap.page)
    (slots : ∀ slot, swap.isAllocated slot = true ↔ tenants.swap.isAllocated slot = true ∧
      ∀ present, tenants.entryAt (process, page) = some present → present.backing ≠ .swap slot)
    {contents : FrameNumber → Page} {filling : Page}
    (sound : (((tenants.layout contents).fillFrame frame filling).place (process, page)
      (some entry)).Sound tolerated) :
    (({ tenants with swap } : Tenants arch).setSpace process placed).Consistent
        tolerated ownerOf ∧
      (({ tenants with swap } : Tenants arch).setSpace process placed).layout
          (Function.update contents frame filling) =
        ((tenants.layout contents).fillFrame frame filling).place (process, page) (some entry) := by
  have loaded : ({ tenants with swap } : Tenants arch).layout
      (Function.update contents frame filling) =
        (tenants.layout contents).fillFrame frame filling := by
    unfold layout Layout.fillFrame
    rw [pages]
    rfl
  have entered := setSpace_layout { tenants with swap } found places
    (Function.update contents frame filling)
  rw [loaded] at entered
  refine ⟨?_, entered⟩
  rw [← entered] at sound
  refine consistent.place found places _ sound wellFormed ?_ ?_
  · intro other
    rw [Option.bind_some, PageEntry.frame?_eq_some.mpr resident, Function.update_apply]
    by_cases same : other = frame
    · rw [same, if_pos rfl]
      exact owned
    · rw [if_neg (fun h => same (Option.some.inj h).symm), if_neg same, if_neg]
      intro mine
      have backs := (consistent.owners other (process, page)).mp
        ((Function.update_of_ne same _ _).trans mine)
      obtain ⟨present, listed, source⟩ := backs
      have resident := PageEntry.isResident_of_frame source
      rw [elsewhere present listed] at resident
      cases resident
  · intro slot
    rw [slots]
    refine ⟨.inr, ?_⟩
    rintro (⟨_, ⟨⟩, source⟩ | held)
    · exact absurd (resident.symm.trans source) (by simp)
    · exact held

end Tenants

namespace Vm

variable {vm after : Vm arch} {frame : FrameNumber} {process : ProcessId} {page : PageNumber}
  {source : PageSource}

theorem Holds.refill {owner : UserPage} (holds : vm.Holds tolerated frame owner)
    (contents : Page) :
    ({ vm with frames := vm.frames.refill frame contents } : Vm arch).Holds tolerated frame owner ∧
      ({ vm with frames := vm.frames.refill frame contents } : Vm arch).layout =
        vm.layout.fillFrame frame contents := by
  obtain ⟨⟨ring, wellFormed, outside, others⟩, tenants, owned⟩ := holds
  refine ⟨⟨⟨ring, wellFormed.refill contents, outside, others⟩, tenants, owned⟩, ?_⟩
  change vm.toTenants.layout (vm.frames.refill frame contents).pool.page = _
  rw [FrameTable.refill_page]
  rfl

theorem Holds.inside {owner : UserPage} (holds : vm.Holds tolerated frame owner) :
    vm.frames.pool.contains frame := by
  obtain ⟨⟨ring, wellFormed, _⟩, _, owned⟩ := holds
  exact wellFormed.inside_of_tracked (FrameTable.mem_of_ownerOf owned)

theorem Holds.idle {owner : UserPage} (holds : vm.Holds tolerated frame owner) (page : UserPage) :
    ¬vm.layout.Backs page (.frame frame) :=
  holds.tenants.idle_frame (Function.update_self frame none vm.frames.ownerOf) _ page

theorem Holds.release_satisfies {unreached : Violation → Prop} {owner : UserPage}
    (holds : vm.Holds unreached frame owner) :
    (vm.frames.release frame).Satisfies tolerated fun frames =>
      ({ vm with frames } : Vm arch).Consistent unreached ∧
        ({ vm with frames } : Vm arch).layout = vm.layout := by
  obtain ⟨⟨ring, wellFormed, outside, others⟩, tenants, owned⟩ := holds
  have tracked := FrameTable.mem_of_ownerOf owned
  refine .mono (FrameTable.release_satisfies wellFormed tracked) ?_
  rintro frames ⟨wellFormed', pages, owners⟩
  rw [List.erase_of_not_mem outside] at wellFormed'
  refine ⟨⟨⟨ring, wellFormed', ?_⟩, ?_⟩, ?_⟩
  · intro other known
    rw [← FrameTable.ownerOf_isSome, owners, Function.update_apply] at known
    split at known
    · simp at known
    · rename_i differs
      exact (others other (FrameTable.ownerOf_isSome.mp known)).resolve_left differs
  · change vm.toTenants.Consistent unreached frames.ownerOf
    rwa [owners]
  · change vm.toTenants.layout frames.pool.page = _
    rw [pages]
    rfl

theorem Holds.mark_satisfies {unreached : Violation → Prop} {owner : UserPage}
    (holds : vm.Holds unreached frame owner) {filled : FrameTable arch} {contents : Page}
    (fills : vm.frames.Fills unreached frame contents filled) :
    (filled.markNotReferenced frame).Satisfies tolerated fun (_, marked) =>
      (∃ ring, marked.WellFormed unreached ring ∧
        ∀ other, other ∈ marked → other ∈ ring) ∧
          marked.pool = filled.pool ∧ marked.ownerOf = vm.frames.ownerOf := by
  obtain ⟨⟨ring, wellFormed, outside, others⟩, tenants, owned⟩ := holds
  have tracked : frame ∈ filled := by
    rw [← FrameTable.ownerOf_isSome, fills.owners, owned]
    rfl
  refine .mono (FrameTable.markNotReferenced_satisfies (fills.wellFormed ring wellFormed) tracked
    outside) ?_
  rintro ⟨_, marked⟩ ⟨_, wellFormed', pool, owners⟩
  rw [fills.owners] at owners
  refine ⟨⟨_, wellFormed', ?_⟩, pool, owners⟩
  intro other known
  rw [← FrameTable.ownerOf_isSome, owners, FrameTable.ownerOf_isSome] at known
  rw [List.mem_append, List.mem_singleton, or_comm]
  exact others other known

/-- The contents of a page have been read: they are in the frame, the slot they came from, if
any, is free, and the page can have this entry. -/
structure Supplies (tolerated : Violation → Prop) (vm : Vm arch) (frame : FrameNumber)
    (process : ProcessId) (page : PageNumber) (swap : SwapTable) (frames : FrameTable arch)
    (contents : Page) (entry : PageEntry) : Prop where
  fills : vm.frames.Fills tolerated frame contents frames
  wellFormed : swap.WellFormed
  pages : swap.page = vm.swap.page
  slots : ∀ slot, swap.isAllocated slot = true ↔ vm.swap.isAllocated slot = true ∧
    ∀ present, vm.layout.entry (process, page) = some present → present.backing ≠ .swap slot
  resident : entry.backing = .frame frame
  arrival : Arrival (process, page) frame vm.layout
    ((vm.layout.fillFrame frame contents).place (process, page) (some entry))

theorem Holds.enter (holds : vm.Holds tolerated frame (process, page))
    (sources : vm.layout.Sources (process, page) source) {swap : SwapTable}
    {filled marked : FrameTable arch} {contents : Page} {entry : PageEntry}
    (supplies : vm.Supplies tolerated frame process page swap filled contents entry)
    (settled : ∃ ring, marked.WellFormed tolerated ring ∧
      ∀ other, other ∈ marked → other ∈ ring)
    (pool : marked.pool = filled.pool) (owners : marked.ownerOf = vm.frames.ownerOf)
    {space placed : AddressSpace arch} (found : vm.spaces[process]? = some space)
    (places : space.Places page (some entry) placed) :
    ({ vm with
      toTenants := ({ vm.toTenants with swap } : Tenants arch).setSpace process placed
      frames := marked } : Vm arch).Consistent tolerated ∧
    ({ vm with
      toTenants := ({ vm.toTenants with swap } : Tenants arch).setSpace process placed
      frames := marked } : Vm arch).layout =
        (vm.layout.fillFrame frame contents).place (process, page) (some entry) := by
  obtain ⟨fills, wellFormed, pages, slots, resident, arrival⟩ := supplies
  have sound := (holds.tenants.sound vm.frames.pool.page).arrive arrival
  have entered := holds.tenants.enter holds.owned found sources.elsewhere resident places
    wellFormed pages slots sound
  refine ⟨⟨settled, ?_⟩, ?_⟩
  · change (({ vm.toTenants with swap } : Tenants arch).setSpace process placed).Consistent
      tolerated marked.ownerOf
    rw [owners]
    exact entered.1
  · change (({ vm.toTenants with swap } : Tenants arch).setSpace process placed).layout
      marked.pool.page = _
    rw [pool, fills.pages, entered.2]
    rfl

theorem slots_of_elsewhere (apart : ∀ slot, ¬vm.layout.Backs (process, page) (.swap slot))
    (slot : SwapSlot) :
    vm.swap.isAllocated slot = true ↔ vm.swap.isAllocated slot = true ∧
      ∀ present, vm.layout.entry (process, page) = some present →
        present.backing ≠ .swap slot := by
  refine ⟨fun used => ⟨used, ?_⟩, And.left⟩
  intro present found source
  exact apart slot ⟨present, found, source⟩

/-- A load that fails changes nothing but the state of the device. -/
theorem Holds.reload {owner : UserPage} (holds : vm.Holds tolerated frame owner)
    {swap : SwapTable} (wellFormed : swap.WellFormed) (pages : swap.page = vm.swap.page)
    (slots : ∀ slot, swap.isAllocated slot = true ↔ vm.swap.isAllocated slot = true) :
    ({ vm with toTenants := { vm.toTenants with swap } } : Vm arch).Holds tolerated frame owner ∧
      ({ vm with toTenants := { vm.toTenants with swap } } : Vm arch).layout = vm.layout := by
  refine ⟨⟨holds.frames, ?_, holds.owned⟩, ?_⟩
  · exact holds.tenants.restore wellFormed slots vm.files
  · change ({ vm.toTenants with swap } : Tenants arch).layout vm.frames.pool.page = _
    rw [Tenants.restore_layout, pages]
    rfl

theorem Holds.coherent {owner : UserPage} (holds : vm.Holds tolerated frame owner)
    {space : AddressSpace arch} (found : vm.spaces[process]? = some space) : space.Coherent :=
  (holds.tenants.spaces process space found).2

theorem Holds.start {owner : UserPage} (holds : vm.Holds tolerated frame owner)
    (violation : Violation) (failed : frame.frameStart arch = .error violation) :
    tolerated violation := by
  have inside := holds.inside
  obtain ⟨⟨ring, wellFormed, _⟩, _, _⟩ := holds
  exact (wellFormed.addressable frame inside).2 violation failed

/-- Reading a source into the frame held for a page either fails, which leaves at most the frame
written, or supplies the page. -/
def Populates (tolerated : Violation → Prop) (vm : Vm arch) (frame : FrameNumber)
    (process : ProcessId) (page : PageNumber) (source : PageSource) :
    Except VmError Unit × Vm arch → Prop
  | (.ok (), filled) => ∃ swap frames contents entry,
      filled = { vm with toTenants := { vm.toTenants with swap }, frames } ∧
        vm.Supplies tolerated frame process page swap frames contents entry ∧
        entry.writable = (vm.layout.entry (process, page)).all PageEntry.writable ∧
        ∀ space, vm.spaces[process]? = some space → ∀ started : Violation → Prop,
          (∀ violation, frame.frameStart arch = .error violation → started violation) →
            (settle space page frame source).Satisfies started (space.Places page (some entry))
  | (.error _, filled) => filled.stack = vm.stack ∧ filled.Holds tolerated frame (process, page) ∧
      Relation.ReflTransGen Shift vm.layout filled.layout

theorem Holds.populate_zero_satisfies (holds : vm.Holds tolerated frame (process, page))
    (sources : vm.layout.Sources (process, page) .zero)
    (zeroed : vm.frames.pool.page frame = Page.zero) :
    (vm.populate frame page .zero).Satisfies tolerated
      (vm.Populates tolerated frame process page .zero) := by
  have idle := holds.idle
  have new : vm.layout.entry (process, page) = none := sources
  refine .pure ⟨vm.swap, vm.frames, Page.zero,
    { backing := .frame frame, writable := true, mapping := none }, rfl,
    ⟨?_, ?_, rfl, ?_, rfl, .fresh vm.layout true idle new⟩, ?_, ?_⟩
  · rw [← zeroed]
    exact FrameTable.Fills.refl vm.frames frame
  · exact holds.tenants.swap
  · refine slots_of_elsewhere ?_
    rintro slot ⟨present, found, _⟩
    exact absurd (new.symm.trans found) (by simp)
  · rw [new]
    rfl
  · intro space found _ start
    have absent := (Tenants.entryAt_of_space found page).symm.trans new
    refine .bind (AddressSpace.installFrame_satisfies (holds.coherent found) absent
      start true) ?_
    rintro ⟨installed, placed⟩ ⟨rfl, places⟩
    refine .bind (.require rfl) fun _ _ => ?_
    exact .pure places

theorem Holds.populate_swap_satisfies (holds : vm.Holds tolerated frame (process, page))
    {slot : SwapSlot} (sources : vm.layout.Sources (process, page) (.swap slot)) :
    (vm.populate frame page (.swap slot)).Satisfies tolerated
      (vm.Populates tolerated frame process page (.swap slot)) := by
  have idle := holds.idle
  have inside := holds.inside
  obtain ⟨ring, frames, _⟩ := holds.frames
  obtain ⟨entry, found, source⟩ := sources
  have allocated := (holds.tenants.slots slot).mpr ⟨_, entry, found, source⟩
  refine .bind (.lift (FrameTable.bytes_satisfies frames inside)) ?_
  rintro dest rfl
  refine .bind (SwapTable.load_satisfies holds.tenants.swap allocated _) ?_
  rintro ⟨result, contents, swap⟩ ⟨wellFormed, pages, outcome⟩
  refine .bind (.lift (FrameTable.setBytes_satisfies frames.addressable inside contents)) ?_
  rintro _ rfl
  cases result with
  | error cause =>
      obtain ⟨reloaded, same⟩ := holds.reload wellFormed pages outcome
      obtain ⟨refilled, layout⟩ := reloaded.refill contents
      refine .pure ⟨rfl, refilled, ?_⟩
      rw [same] at layout
      refine .single ?_
      rw [show Vm.layout _ = _ from layout]
      exact .scratchFrame vm.layout frame contents idle
  | ok _ =>
      obtain ⟨rfl, freed⟩ := outcome
      refine .pure ⟨swap, _, _, { entry with backing := .frame frame }, rfl,
        ⟨vm.frames.refill_fills frame _, wellFormed, pages, ?_, rfl,
          .swapped vm.layout entry slot idle found source⟩, ?_, ?_⟩
      · intro other
        rw [freed, and_comm]
        refine and_congr_right fun _ => ⟨?_, ?_⟩
        · intro apart present again shared
          rw [found] at again
          cases again
          exact apart (Backing.swap.inj (source.symm.trans shared)).symm
        · rintro apart rfl
          exact apart entry found source
      · rw [found]
        rfl
      · intro space live _ start
        have listed := (Tenants.entryAt_of_space live page).symm.trans found
        refine AddressSpace.faultIn_satisfies (holds.coherent live) listed ?_ start
        exact PageEntry.isResident_eq_false (by simp [source])

theorem Holds.populate_file_satisfies (holds : vm.Holds tolerated frame (process, page))
    {id : MappingId} (sources : vm.layout.Sources (process, page) (.file id)) :
    (vm.populate frame page (.file id)).Satisfies tolerated
      (vm.Populates tolerated frame process page (.file id)) := by
  have idle := holds.idle
  have inside := holds.inside
  obtain ⟨ring, frames, _⟩ := holds.frames
  obtain ⟨entry, found, source⟩ := sources
  have sound := holds.tenants.sound vm.frames.pool.page
  have admits := sound.admits _ entry found
  obtain ⟨mapping, live, _, contains, _⟩ := admits.mapped id (admits.filed id source)
  change vm.mappings.get? id = some mapping at live
  have range := sound.ranges id mapping page live contains
  unfold populate
  simp only [live]
  refine .bind (.lift (FrameTable.bytes_satisfies frames inside)) ?_
  rintro dest rfl
  refine .bind (.lift (.of_errors fun violation failed =>
    range violation (Mapping.readPage_eq_error failed))) ?_
  intro contents read
  refine .bind (.lift (FrameTable.setBytes_satisfies frames.addressable inside contents)) ?_
  rintro _ rfl
  refine .pure ⟨vm.swap, _, contents, { entry with backing := .frame frame }, rfl,
    ⟨vm.frames.refill_fills frame _, holds.tenants.swap, rfl, slots_of_elsewhere ?_, rfl,
      .filed vm.layout entry id mapping _ contents idle found source live read⟩, ?_, ?_⟩
  · rintro slot ⟨present, again, shared⟩
    rw [found] at again
    cases again
    exact absurd (source.symm.trans shared) (by simp)
  · rw [found]
    rfl
  · intro space live _ start
    have listed := (Tenants.entryAt_of_space live page).symm.trans found
    refine AddressSpace.faultIn_satisfies (holds.coherent live) listed ?_ start
    exact PageEntry.isResident_eq_false (by simp [source])

theorem Holds.populate_satisfies (holds : vm.Holds tolerated frame (process, page))
    (sources : vm.layout.Sources (process, page) source)
    (zeroed : source = .zero → vm.frames.pool.page frame = Page.zero) :
    (vm.populate frame page source).Satisfies tolerated
      (vm.Populates tolerated frame process page source) := by
  cases source with
  | zero => exact holds.populate_zero_satisfies sources (zeroed rfl)
  | swap slot => exact holds.populate_swap_satisfies sources
  | file id => exact holds.populate_file_satisfies sources

/-- What becomes of memory when a page is brought in: others move, and if a frame is the
answer the page, which was in none, arrives in it, with the permission its entry had, if any. -/
def Brings {ε : Type} (page : UserPage) (layout moved : Layout) : Except ε FrameNumber → Prop
  | .error _ => Relation.ReflTransGen Shift layout moved
  | .ok frame => layout.resident page = false ∧
      (∃ middle, Relation.ReflTransGen Shift layout middle ∧
        Arrival page frame middle moved) ∧
      ∃ entry, moved.entry page = some entry ∧ entry.backing = .frame frame ∧
        entry.writable = (layout.entry page).all PageEntry.writable

theorem bringIn_satisfies (consistent : vm.Consistent tolerated)
    (live : vm.spaces.contains process = true)
    (sources : vm.layout.Sources (process, page) source) :
    (vm.bringIn process page source).Satisfies tolerated fun (result, after) =>
      after.stack = vm.stack ∧ after.Consistent tolerated ∧
        Brings (process, page) vm.layout after.layout result := by
  unfold bringIn
  refine .bind (acquireFrame_satisfies consistent rfl process page) ?_
  rintro ⟨acquired, held⟩ ⟨stack, path, outcome⟩
  cases acquired with
  | error cause => exact .pure ⟨stack, outcome, path⟩
  | ok frame =>
      obtain ⟨holds, zeroed⟩ := outcome
      -- the eviction may have moved other pages, but this one is in no frame
      have unmoved := sources.elsewhere
      have sources := sources.moves path
      have zeroed : source = .zero → held.frames.pool.page frame = Page.zero := by
        intro new
        exact zeroed (decide_eq_true new)
      refine .bind (holds.populate_satisfies sources zeroed) ?_
      rintro ⟨populated, filled⟩ outcome
      cases populated with
      | error cause =>
          -- the frame goes back to the pool, and the page stays where its contents are
          obtain ⟨stack', holds', write⟩ := outcome
          refine .bind (.lift holds'.release_satisfies) ?_
          rintro frames ⟨consistent', same⟩
          refine .pure ⟨stack'.trans stack, consistent', ?_⟩
          change Relation.ReflTransGen Shift vm.layout _
          rw [same]
          exact path.trans write
      | ok _ =>
          obtain ⟨swap, frames, contents, entry, rfl, supplies, permission, settles⟩ := outcome
          refine .bind (.lift (holds.mark_satisfies supplies.fills)) ?_
          rintro ⟨_, marked⟩ ⟨settled, pool, owners⟩
          have alive : held.spaces.contains process = true := by
            have same := Layout.live_of_moves path
            exact (congrFun same process).trans live
          obtain ⟨space, found⟩ := Tenants.live_iff.mp alive
          dsimp only
          rw [found]
          refine .bind (.lift (settles space found tolerated holds.start)) ?_
          intro placed places
          obtain ⟨consistent', layout⟩ :=
            holds.enter sources supplies settled pool owners found places
          refine .pure ⟨stack, consistent', Layout.resident_eq_false.mpr unmoved,
            ⟨held.layout, path, ?_⟩, entry, ?_, supplies.resident, ?_⟩
          · rw [show Vm.layout _ = _ from layout]
            exact supplies.arrival
          · rw [show Vm.layout _ = _ from layout, Layout.place_entry, if_pos rfl]
          · rw [permission, Layout.entry_of_moves path unmoved]

theorem faultSource_sources {fault : PageFault} {owner : UserPage}
    (decided : vm.faultSource fault (vm.layout.entry owner) = .ok source) :
    vm.layout.Sources owner source := by
  unfold faultSource at decided
  cases found : vm.layout.entry owner with
  | none =>
      simp only [found, Option.map_none] at decided
      split at decided
      · split at decided
        · cases decided
        · cases decided
          exact found
      · cases decided
  | some entry =>
      simp only [found, Option.map_some] at decided
      cases source' : entry.backing with
      | frame frame =>
          simp only [source'] at decided
          split at decided
          · split at decided <;> cases decided
          · cases decided
      | swap slot =>
          simp only [source'] at decided
          have same : source = .swap slot := by
            split at decided
            · split at decided
              · cases decided
              · exact (Except.ok.inj decided).symm
            · exact (Except.ok.inj decided).symm
          rw [same]
          exact ⟨entry, found, source'⟩
      | file id =>
          simp only [source'] at decided
          split at decided
          · split at decided <;> cases decided
          · cases decided
            exact ⟨entry, found, source'⟩

theorem classify_satisfies {fault : PageFault}
    (resident : ∀ entry, vm.layout.entry (process, fault.address.page) = some entry →
      entry.isResident = true → (fault.write = true → entry.writable = true) →
        tolerated (.faultedWhileResident fault.address.page process)) :
    (vm.classify process fault).Satisfies tolerated fun result =>
      ∀ source, result = .ok source → vm.spaces.contains process = true ∧
        vm.layout.Sources (process, fault.address.page) source ∧
        ∀ entry, vm.layout.entry (process, fault.address.page) = some entry →
          fault.write = true → entry.writable = true := by
  unfold classify
  split
  · exact .pure (by rintro source ⟨⟩)
  · cases found : vm.spaces[process]? with
    | none => exact .pure (by rintro source ⟨⟩)
    | some space =>
        have listed := Tenants.entryAt_of_space found fault.address.page
        change vm.layout.entry (process, fault.address.page) = _ at listed
        have alive : vm.spaces.contains process = true := Tenants.live_iff.mpr ⟨space, found⟩
        dsimp only
        rw [← listed]
        split
        · exact .pure (by rintro source ⟨⟩)
        · rename_i permitted
          have allowed : ∀ entry, vm.layout.entry (process, fault.address.page) = some entry →
              fault.write = true → entry.writable = true := by
            intro entry present write
            rw [present, write] at permitted
            simpa using permitted
          refine .bind (.of_errors fun violation broken => ?_) fun _ _ => ?_
          · unfold require at broken
            split at broken
            · cases broken
            · rename_i inside
              cases broken
              obtain ⟨entry, present, here⟩ := (Option.any_eq_true _ _).mp (not_not.mp inside)
              exact resident entry present here (allowed entry present)
          · refine .pure fun source decided => ⟨alive, faultSource_sources decided, allowed⟩

theorem resolveFault_satisfies (consistent : vm.Consistent tolerated) {fault : PageFault}
    (resident : ∀ entry, vm.layout.entry (process, fault.address.page) = some entry →
      entry.isResident = true → (fault.write = true → entry.writable = true) →
        tolerated (.faultedWhileResident fault.address.page process)) :
    (vm.resolveFault process fault).Satisfies tolerated fun (result, after) =>
      after.stack = vm.stack ∧ after.Consistent tolerated ∧
        Brings (process, fault.address.page) vm.layout after.layout result ∧
          ∀ frame, result = .ok frame → fault.write = true →
            (vm.layout.entry (process, fault.address.page)).all PageEntry.writable = true := by
  unfold resolveFault
  refine .bind (.lift (classify_satisfies resident)) ?_
  intro decided sources
  cases decided with
  | error cause => exact .pure ⟨rfl, consistent, .refl, by rintro frame ⟨⟩⟩
  | ok source =>
      obtain ⟨live, sources, allowed⟩ := sources source rfl
      refine .bind .log fun _ _ => ?_
      refine .bind (bringIn_satisfies consistent live sources) ?_
      rintro ⟨result, after⟩ ⟨stack, consistent', brings⟩
      refine .pure ⟨stack, consistent', ?_, ?_⟩
      · cases result with
        | error cause => exact brings
        | ok frame => exact brings
      · intro _ _ write
        rw [Option.all_eq_true]
        exact fun entry present => allowed entry present write

theorem handleFault_satisfies (consistent : vm.Consistent tolerated) {fault : PageFault}
    (resident : ∀ entry, vm.layout.entry (process, fault.address.page) = some entry →
      entry.isResident = true → (fault.write = true → entry.writable = true) →
        tolerated (.faultedWhileResident fault.address.page process)) :
    (vm.handleFault process fault).Satisfies tolerated fun (_, after) =>
      after.stack = vm.stack ∧ after.Consistent tolerated ∧
        ∃ result : Except FaultError FrameNumber,
          Brings (process, fault.address.page) vm.layout after.layout result := by
  unfold handleFault
  refine .bind (resolveFault_satisfies consistent resident) ?_
  rintro ⟨result, after⟩ ⟨stack, consistent', brings, _⟩
  cases result with
  | error cause =>
      refine .bind .log fun _ _ => ?_
      exact .pure ⟨stack, consistent', _, brings⟩
  | ok frame => exact .pure ⟨stack, consistent', _, brings⟩

end Vm
end DemandPaging
