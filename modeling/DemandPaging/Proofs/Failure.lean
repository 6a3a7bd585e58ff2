import DemandPaging.Proofs.Displacement
import DemandPaging.Proofs.Readable
import DemandPaging.Proofs.ShortReads

/-!
What a request for a page leaves when it fails for want of resources. The page stays as it was,
whether it had an entry or not, and so do mappings and everything in swap; at most one other page
has left its frame, and the frame is free.
-/

namespace DemandPaging

variable {arch : Architecture}

namespace Mapping

variable {mapping other : Mapping} {page written : PageNumber} {files after : FileStore}
  {source : Page} {result : Except VmError Unit}

theorem readAt_of_written
    (stored : mapping.writePage files written source = .ok (result, after)) (apart : written ≠ page)
    {range : FileRange} (found : mapping.fileRange page = .ok range) :
    (after.get mapping.segment.file).readAt range.offset range.length =
      (files.get mapping.segment.file).readAt range.offset range.length := by
  obtain ⟨inside, offset, length⟩ := fileRange_eq_ok found
  unfold contains at inside
  simp only [Bool.and_eq_true, decide_eq_true_eq] at inside
  have cap := readCap_writePage stored
  have size := size_writePage stored
  have moved : FileChannel.capped (files.get mapping.segment.file).readCap range.length ≤
      range.length := by
    unfold FileChannel.capped
    split
    · exact Nat.le_refl _
    · exact Nat.min_le_left _ _
  unfold FileChannel.readAt File.readAt
  rw [cap]
  refine Array.ext_getElem? fun i => ?_
  rw [Array.getElem?_extract, Array.getElem?_extract, size]
  split
  · obtain same | ⟨index, _, here, place, _⟩ := written_byte stored (range.offset + i)
    · exact same
    · refine absurd ?_ apart
      rw [← here, Number.ext_iff]
      unfold bytePage
      simp only [pageSize] at offset length ⊢
      omega
  · rfl

/-- What is read of a page changes only by a write to the same file: one of another mapping that
is not spared it, or of the page itself. -/
theorem readPage_of_written
    (stored : other.writePage files written source = .ok (result, after))
    (apart : other.segment.file = mapping.segment.file →
      other = mapping ∧ written ≠ page ∨ other.Spares) (dest : Page) :
    mapping.readPage after page dest = mapping.readPage files page dest := by
  by_cases file : other.segment.file = mapping.segment.file
  · obtain ⟨rfl, differs⟩ | spares := apart file
    · unfold readPage
      cases found : other.fileRange page with
      | error violation => rfl
      | ok range => simp only [Checked.ok_bind, readAt_of_written stored differs found]
    · obtain ⟨_, rfl⟩ | ⟨unspared, _⟩ := writePage_eq_ok stored
      · rfl
      · exact absurd spares unspared
  · unfold readPage
    rw [writePage_get stored (Ne.symm file)]

end Mapping

namespace Layout

variable {layout middle moved : Layout} {page : UserPage} {tolerated : Violation → Prop}

/-- No mapping but the page's own writes to the file that the page lives in. -/
def Unshared (layout : Layout) (page : UserPage) : Prop :=
  ∀ id mapping, layout.Backs page (.file id) → layout.mapping id = some mapping →
    ∀ other known, layout.mapping other = some known →
      known.segment.file = mapping.segment.file → known = mapping ∨ known.Spares

/-- The page stays where it is, and whatever is in files is supplied as before. -/
structure Untouched (page : UserPage) (layout moved : Layout) : Prop where
  entry : moved.entry page = layout.entry page
  supply : ∀ files, moved.supply files page = layout.supply files page

theorem Untouched.refl (page : UserPage) (layout : Layout) : Untouched page layout layout :=
  ⟨rfl, fun _ => rfl⟩

theorem Untouched.trans (first : Untouched page layout middle)
    (later : Untouched page middle moved) : Untouched page layout moved :=
  ⟨later.entry.trans first.entry, fun files => (later.supply files).trans (first.supply files)⟩

theorem Untouched.away (untouched : Untouched page layout moved)
    (away : layout.resident page = false) : moved.resident page = false := by
  unfold resident
  rw [untouched.entry]
  exact away

theorem not_backs_frame (away : layout.resident page = false) {frame : FrameNumber} :
    ¬layout.Backs page (.frame frame) := by
  rintro ⟨entry, found, resident⟩
  have elsewhere := resident_eq_false.mp away entry found
  rw [PageEntry.isResident_of_frame resident] at elsewhere
  cases elsewhere

theorem untouched_of_entry (away : layout.resident page = false)
    (entry : moved.entry page = layout.entry page)
    (slot : ∀ slot, layout.Backs page (.swap slot) → moved.slot slot = layout.slot slot)
    (mapping : ∀ id, layout.Backs page (.file id) → moved.mapping id = layout.mapping id) :
    Untouched page layout moved := by
  refine ⟨entry, fun files => ?_⟩
  cases present : layout.entry page with
  | none => rw [supply_new present, supply_new (entry.trans present)]
  | some known =>
      rw [supply_eq_find present, supply_eq_find (entry.trans present)]
      cases source : known.backing with
      | frame frame => exact absurd ⟨known, present, source⟩ (not_backs_frame away)
      | swap place => exact congrArg some (slot place ⟨known, present, source⟩)
      | file id =>
          unfold find
          dsimp only
          rw [mapping id ⟨known, present, source⟩]

/-- What is in a slot stays there while pages move. -/
theorem slot_of_upholds (upholds : layout.Upholds moved page)
    (entry : moved.entry page = layout.entry page) {slot : SwapSlot}
    (backs : layout.Backs page (.swap slot)) : moved.slot slot = layout.slot slot := by
  obtain ⟨known, present, source⟩ := backs
  have before : layout.contentsOf page = some (layout.slot slot) := by
    rw [contentsOf_eq present, source]
    rfl
  have after : moved.contentsOf page = some (moved.slot slot) := by
    rw [contentsOf_eq (entry.trans present), source]
    rfl
  exact (Option.some.inj (before.symm.trans (upholds _ after))).symm

theorem untouched_of_moves (away : layout.resident page = false)
    (path : Relation.ReflTransGen Shift layout moved) : Untouched page layout moved := by
  have entry := entry_of_moves path (resident_eq_false.mp away)
  exact untouched_of_entry away entry
    (fun _ => slot_of_upholds (upholds_of_moves path page) entry)
    fun id _ => congrFun (mapping_of_moves path) id

theorem readPage_of_moves (sound : layout.Sound tolerated) (away : layout.resident page = false)
    {mapping : Mapping} (owner : mapping.owner = page.1)
    (unshared : ∀ other known, layout.mapping other = some known →
      known.segment.file = mapping.segment.file → known = mapping ∨ known.Spares)
    (path : Relation.ReflTransGen Shift layout moved) (dest : Page) :
    mapping.readPage moved.files page.2 dest = mapping.readPage layout.files page.2 dest := by
  induction path with
  | refl => rfl
  | @tail middle _ path step ih =>
      rw [← ih]
      cases step with
      | scratchSlot | scratchFrame | toSwap | toFile => rfl
      | writeBack other entry frame number known result files found resident belongs live' written =>
          refine Mapping.readPage_of_written written (fun same => ?_) dest
          have live'' := (congrFun (mapping_of_moves path) number).symm.trans live'
          refine (unshared number known live'' same).imp_left fun own => ⟨own, fun here => ?_⟩
          -- the page that is written is in a frame
          obtain ⟨known', again, owner', _⟩ :=
            ((sound.moves path).admits other entry found).mapped number belongs
          cases live'.symm.trans again
          obtain rfl : other = page := Prod.ext (by rw [← owner', own, owner]) here
          have away' := (untouched_of_moves away path).away away
          exact not_backs_frame away' ⟨entry, found, resident⟩

theorem supply_of_moves (sound : layout.Sound tolerated) (away : layout.resident page = false)
    (unshared : layout.Unshared page) (path : Relation.ReflTransGen Shift layout moved) :
    moved.supply moved.files page = layout.supply layout.files page := by
  rw [(untouched_of_moves away path).supply]
  cases present : layout.entry page with
  | none => rw [supply_new present, supply_new present]
  | some entry =>
      rw [supply_eq_find present, supply_eq_find present]
      cases source : entry.backing with
      | frame | swap => rfl
      | file id =>
          have admits := sound.admits page entry present
          obtain ⟨mapping, live, owner, _⟩ := admits.mapped id (admits.filed id source)
          unfold find
          simp only [live, Option.bind_some]
          rw [readPage_of_moves sound away owner
            (unshared id mapping ⟨entry, present, source⟩ live) path]

end Layout

theorem SwapTable.load_fails (swap : SwapTable) (slot : SwapSlot) (dest : Page) :
    (swap.load slot dest).Satisfies (fun _ => True) fun (result, _, after) =>
      ∀ cause, result = .error cause → after = swap := by
  unfold load
  refine .bind (.lift .any) fun _ _ => .bind (.lift .any) fun first _ => ?_
  split
  · exact .pure fun _ _ => rfl
  · refine .bind (.lift .any) fun slots _ => .bind .log fun _ _ => .pure ?_
    rintro _ ⟨⟩

namespace Vm

variable {vm after : Vm arch} {process : ProcessId}

theorem populate_fails (frame : FrameNumber) (page : PageNumber) (source : PageSource) :
    (vm.populate frame page source).Satisfies (fun _ => True) fun (result, filled) =>
      ∀ cause, result = .error cause → filled.toTenants = vm.toTenants ∧
        filled.frames.pool.free = vm.frames.pool.free := by
  cases source with
  | zero => exact .pure (by rintro _ ⟨⟩)
  | swap slot =>
      refine .bind (.lift .any) fun dest _ => .bind (SwapTable.load_fails vm.swap slot dest) ?_
      rintro ⟨result, contents, swap⟩ failed
      refine .bind (.lift (FrameTable.setBytes_free contents)) fun frames same => ?_
      refine .pure fun cause refused => ⟨?_, same.1⟩
      obtain rfl := failed cause refused
      rfl
  | file id =>
      unfold populate
      dsimp only
      split
      · trivial
      · refine .bind (.lift .any) fun _ _ => .bind (.lift .any) fun _ _ =>
          .bind (.lift .any) fun _ _ => .pure ?_
        rintro _ ⟨⟩

/-- What becomes of frames and pages when a page cannot be had: no page has moved and the free
frames are the same, or none was free and one page has left its frame, which is free. -/
structure Forfeits (vm after : Vm arch) : Prop where
  abides : vm.toTenants.Abides after.toTenants
  spends : after.entryAt = vm.entryAt ∧ after.frames.pool.free = vm.frames.pool.free ∨
    vm.frames.pool.free = [] ∧ ∃ frame victim, after.frames.pool.free = [frame] ∧
      vm.toTenants.Displaces (vm.frames.pool.page frame) frame victim after.toTenants

theorem Forfeits.refl (vm : Vm arch) : vm.Forfeits vm :=
  ⟨.refl _, .inl ⟨rfl, rfl⟩⟩

theorem forfeits_of_spends {held : Vm arch} {frame : FrameNumber}
    (abides : vm.toTenants.Abides held.toTenants) (spends : vm.Spends held (.ok frame))
    (tenants : after.toTenants = held.toTenants)
    (free : after.frames.pool.free = frame :: held.frames.pool.free) : vm.Forfeits after := by
  rw [← tenants] at abides
  refine ⟨abides, ?_⟩
  obtain ⟨entries, first⟩ | ⟨full, still, victim, displaces⟩ := spends
  · exact .inl ⟨(congrArg Tenants.entryAt tenants).trans entries, free.trans first.symm⟩
  · rw [still] at free
    rw [← tenants] at displaces
    exact .inr ⟨full, frame, victim, free, displaces⟩

theorem bringIn_forfeits (consistent : vm.Consistent fun _ => True)
    (regular : vm.layout.Regular) (page : PageNumber) (source : PageSource) :
    (vm.bringIn process page source).Satisfies (fun _ => True) fun (result, after) =>
      ∀ cause, result = .error cause → vm.Forfeits after := by
  unfold bringIn
  refine .bind ((acquireFrame_spends consistent regular rfl process page).and
    (acquireFrame_abides _ process page)) ?_
  rintro ⟨acquired, held⟩ ⟨spends, abides⟩
  cases acquired with
  | error cause => exact .pure fun _ _ => ⟨abides, .inl spends⟩
  | ok frame =>
      refine .bind (populate_fails frame page source) ?_
      rintro ⟨populated, filled⟩ failed
      cases populated with
      | error cause =>
          obtain ⟨tenants, free⟩ := failed cause rfl
          refine .bind (.lift FrameTable.release_pool) fun frames freed => ?_
          refine .pure fun _ _ => forfeits_of_spends abides spends tenants ?_
          exact (congrArg FramePool.free freed.1).trans (congrArg (frame :: ·) free)
      | ok _ =>
          refine .bind (.lift .any) fun _ _ => ?_
          dsimp only
          split
          · trivial
          · exact .bind (.lift .any) fun _ _ => .pure (by rintro _ ⟨⟩)

theorem resolveFault_forfeits (consistent : vm.Consistent fun _ => True)
    (regular : vm.layout.Regular) (fault : PageFault) :
    (vm.resolveFault process fault).Satisfies (fun _ => True) fun (result, after) =>
      ∀ cause, result = .error cause → vm.Forfeits after := by
  unfold resolveFault
  refine .bind (.lift .any) fun decided _ => ?_
  cases decided with
  | error cause => exact .pure fun _ _ => .refl vm
  | ok source =>
      refine .bind .log fun _ _ =>
        .bind (bringIn_forfeits consistent regular fault.address.page source) ?_
      rintro ⟨result, after⟩ forfeits
      refine .pure fun cause refused => ?_
      cases result with
      | error reason => exact forfeits reason rfl
      | ok frame => cases refused

theorem installPage_forfeits (consistent : vm.Consistent fun _ => True)
    (regular : vm.layout.Regular) (address : VirtualAddress) (writable : Bool) :
    (vm.installPage process address writable).Satisfies (fun _ => True) fun (result, after) =>
      ∀ cause, result = .error cause → vm.Forfeits after := by
  unfold installPage
  split
  · exact .pure fun _ _ => .refl vm
  · dsimp only
    split
    · exact .pure fun _ _ => .refl vm
    · split
      · exact .pure fun _ _ => .refl vm
      · refine .bind ((acquireFrame_spends consistent regular rfl process address.page).and
          (acquireFrame_abides _ process address.page)) ?_
        rintro ⟨acquired, held⟩ ⟨spends, abides⟩
        cases acquired with
        | error cause => exact .pure fun _ _ => ⟨abides, .inl spends⟩
        | ok frame =>
            dsimp only
            split
            · trivial
            · exact .bind (.lift .any) fun _ _ => .bind (.lift .any) fun _ _ =>
                .bind (.lift .any) fun _ _ => .pure (by rintro _ ⟨⟩)

/-- An operation asks for a page, and all that can be wanting is a frame or what fills it. -/
def Operation.Seeks (vm : Vm arch) (page : UserPage) : Operation → Prop
  | .resolveFault process fault =>
    page = (process, fault.address.page) ∧ ∃ source, vm.classify process fault = .ok (.ok source)
  | .installPage process address _ =>
    page = (process, address.page) ∧ address.isUser arch = true ∧
      vm.spaces.contains process = true ∧ vm.entryAt page = none
  | _ => False

/-- An operation asks for a page: it reports a fault there, or installs it. -/
def Operation.Requests (page : UserPage) : Operation → Prop
  | .resolveFault process fault => page = (process, fault.address.page)
  | .installPage process address _ => page = (process, address.page)
  | _ => False

/-- An answer says that frames or slots are wanting, or that a transfer failed. -/
def Answer.IsShortage : Answer → Prop
  | .faultError cause => cause.IsShortage
  | .error cause => cause.IsShortage
  | _ => False

theorem Operation.Seeks.sources {operation : Operation} {page : UserPage}
    (seeks : operation.Seeks vm page) :
    vm.spaces.contains page.1 = true ∧ ∃ source, vm.layout.Sources page source := by
  cases operation with
  | resolveFault process fault =>
      obtain ⟨rfl, source, classified⟩ := seeks
      have decides : (vm.classify process fault).Satisfies (fun _ => True) _ :=
        classify_satisfies fun _ _ _ _ => trivial
      rw [classified] at decides
      obtain ⟨live, sources, _⟩ := decides source rfl
      exact ⟨live, source, sources⟩
  | installPage process address writable =>
      obtain ⟨rfl, _, live, new⟩ := seeks
      exact ⟨live, .zero, new⟩
  | _ => exact seeks.elim

theorem Operation.Seeks.away {operation : Operation} {page : UserPage}
    (seeks : operation.Seeks vm page) : vm.layout.resident page = false := by
  obtain ⟨_, source, sources⟩ := seeks.sources
  exact Layout.resident_eq_false.mpr sources.elsewhere

theorem installPage_seeks (process : ProcessId) (address : VirtualAddress) (writable : Bool) :
    (vm.installPage process address writable).Satisfies (fun _ => True) fun (result, _) =>
      ∀ cause, result = .error cause → cause.IsShortage →
        (Operation.installPage process address writable).Seeks vm (process, address.page) := by
  unfold installPage
  split
  · refine .pure ?_
    rintro _ ⟨⟩ ⟨⟩
  · rename_i user
    dsimp only
    cases found : vm.spaces[process]? with
    | none =>
        refine .pure ?_
        rintro _ ⟨⟩ ⟨⟩
    | some space =>
        dsimp only
        split
        · refine .pure ?_
          rintro _ ⟨⟩ ⟨⟩
        · rename_i unlisted
          rw [Bool.not_eq_true, NumberMap.contains_eq_false] at unlisted
          refine .mono .any fun _ _ _ _ _ => ⟨rfl, ?_, ?_, ?_⟩
          · simpa using user
          · exact Tenants.live_iff.mpr ⟨space, found⟩
          · exact (Tenants.entryAt_of_space found address.page).trans unlisted

theorem resolveFault_seeks (process : ProcessId) (fault : PageFault) :
    (vm.resolveFault process fault).Satisfies (fun _ => True) fun (result, _) =>
      ∀ cause, result = .error cause → cause.IsShortage →
        (Operation.resolveFault process fault).Seeks vm (process, fault.address.page) := by
  unfold resolveFault
  refine .bind (.lift (.of_errors fun _ _ => trivial)) fun decided classified => ?_
  cases decided with
  | error cause =>
      refine .pure ?_
      rintro _ ⟨⟩ short
      exact absurd short (classify_refuses classified)
  | ok source => exact .mono .any fun _ _ _ _ _ => ⟨rfl, source, classified⟩

/-- A request that fails for want of resources was one that nothing else speaks against, and no
more than moves of other pages has come of it. -/
theorem forfeits_of_yields (consistent : vm.Consistent fun _ => True)
    (regular : vm.layout.Regular) {operation : Operation} {page : UserPage}
    (requests : operation.Requests page) {answer : Answer}
    (yields : (vm.step operation).Yields (answer, after)) (short : answer.IsShortage) :
    operation.Seeks vm page ∧ vm.Forfeits after ∧ after.stack = vm.stack ∧
      Relation.ReflTransGen Shift vm.layout after.layout := by
  cases operation with
  | resolveFault process fault =>
      obtain rfl := requests
      obtain ⟨⟨result, last⟩, resolves, rest⟩ := Run.yields_bind.mp yields
      cases result with
      | ok frame =>
          cases rest
          exact short.elim
      | error cause =>
          cases rest
          obtain ⟨stack, _, path, _⟩ :=
            (resolveFault_satisfies consistent fun _ _ _ _ => trivial).of_yields resolves
          exact ⟨(resolveFault_seeks process fault).of_yields resolves cause rfl short,
            (resolveFault_forfeits consistent regular fault).of_yields resolves cause rfl,
            stack, path⟩
  | installPage process address writable =>
      obtain rfl := requests
      obtain ⟨⟨result, last⟩, installs, rest⟩ := Run.yields_bind.mp yields
      cases rest
      cases result with
      | ok frame => exact short.elim
      | error cause =>
          obtain ⟨stack, _, path⟩ :=
            (installPage_satisfies consistent process address writable).of_yields installs
          exact ⟨(installPage_seeks process address writable).of_yields installs cause rfl short,
            (installPage_forfeits consistent regular address writable).of_yields installs cause rfl,
            stack, path⟩
  | _ => exact requests.elim

/-- What is lost by a request for a page that fails for want of resources: nothing. -/
structure Forgoes (page : UserPage) (vm after : Vm arch) : Prop where
  stack : after.stack = vm.stack
  processes : ∀ process, after.spaces.contains process = vm.spaces.contains process
  mappings : after.mappings = vm.mappings
  entry : after.entryAt page = vm.entryAt page
  /-- No page gains or loses an entry. -/
  entries : ∀ other, (after.entryAt other).isSome = (vm.entryAt other).isSome
  /-- The free frames are the same and no page has moved; or none was free, and a page other than
  the one that was asked for has left the frame that is free. -/
  moved : after.entryAt = vm.entryAt ∧ after.frames.pool.free = vm.frames.pool.free ∨
    vm.frames.pool.free = [] ∧ ∃ frame victim, victim ≠ page ∧
      after.frames.pool.free = [frame] ∧
      vm.toTenants.Displaces (vm.frames.pool.page frame) frame victim after.toTenants
  /-- Pages that are in swap stay there, with all of their sectors. -/
  slots : ∀ other slot, vm.layout.Backs other (.swap slot) →
    after.layout.Backs other (.swap slot) ∧ after.swap.isAllocated slot = true ∧
      ∀ index : Fin sectorsPerPage,
        after.swap.device.sectorAt (slot.value * sectorsPerPage + index.val) =
          vm.swap.device.sectorAt (slot.value * sectorsPerPage + index.val)
  /-- Pages that are in frames were there before, with the same contents. -/
  frames : ∀ other frame, after.layout.Backs other (.frame frame) →
    vm.layout.Backs other (.frame frame) ∧
      after.frames.pool.page frame = vm.frames.pool.page frame
  /-- What the page will hold is the same, if no other mapping writes to its file. -/
  supplied : vm.layout.Unshared page →
    after.layout.supply after.files page = vm.layout.supply vm.files page

theorem forgoes_of_yields (consistent : vm.Consistent fun _ => True)
    (consistent' : after.Consistent fun _ => True) (regular : vm.layout.Regular)
    {operation : Operation} {page : UserPage} (requests : operation.Requests page)
    {answer : Answer} (yields : (vm.step operation).Yields (answer, after))
    (short : answer.IsShortage) : vm.Forgoes page after := by
  obtain ⟨seeks, ⟨abides, spends⟩, stack, path⟩ :=
    forfeits_of_yields consistent regular requests yields short
  have away := seeks.away
  have untouched := Layout.untouched_of_moves away path
  have upholds := Layout.upholds_of_moves path
  refine ⟨stack, congrFun (Layout.live_of_moves path), abides.mappings, untouched.entry, ?_, ?_,
    ?_, ?_, fun unshared => Layout.supply_of_moves consistent.layout_sound away unshared path⟩
  · intro other
    change (after.layout.entry other).isSome = (vm.layout.entry other).isSome
    rw [← Layout.role_isSome, Layout.role_of_moves path, Layout.role_isSome]
  · refine spends.imp_right ?_
    rintro ⟨full, frame, victim, free, displaces⟩
    refine ⟨full, frame, victim, ?_, free, displaces⟩
    rintro rfl
    obtain ⟨entry, _, found, resident, _⟩ := displaces
    exact Layout.not_backs_frame away ⟨entry, found, resident⟩
  · rintro other slot backs
    obtain ⟨entry, found, source⟩ := id backs
    have elsewhere : ∀ entry, vm.layout.entry other = some entry → entry.isResident = false := by
      intro present again
      cases found.symm.trans again
      exact PageEntry.isResident_eq_false (by simp [source])
    have same := Layout.entry_of_moves path elsewhere
    refine ⟨⟨entry, same.trans found, source⟩, ?_, fun index => ?_⟩
    · exact (consistent'.tenants.slots slot).mpr ⟨other, entry, same.trans found, source⟩
    · rw [← SwapDevice.sector_pageAt, ← SwapDevice.sector_pageAt]
      exact congrArg (Page.sector · index) (Layout.slot_of_upholds (upholds other) same backs)
  · rintro other frame backs
    have before := Layout.backs_frame_of_moves path backs
    obtain ⟨entry, found, resident⟩ := id before
    obtain ⟨entry', found', resident'⟩ := backs
    refine ⟨before, ?_⟩
    have holds := upholds other (after.frames.pool.page frame)
      ((Layout.contentsOf_eq found').trans (by rw [resident']; rfl))
    rw [Layout.contentsOf_eq found, resident] at holds
    exact (Option.some.inj holds).symm

end Vm
end DemandPaging
