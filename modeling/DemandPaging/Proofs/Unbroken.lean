import DemandPaging.Proofs.Extent
import DemandPaging.Proofs.Regular

/-!
Rules that are not broken, page by page. Moving a resident page out of its frame never runs
out of the file, because the page was found there before. What is left to go wrong is that
a page is looked up in its file for the first time, so an operation that ends with such a
violation accesses a page that its file cannot locate.
-/

namespace DemandPaging

variable {arch : Architecture} {tolerated : Violation → Prop}

/-- A page that is away from its file is located there. -/
theorem Layout.Regular.range {layout : Layout} (regular : layout.Regular) {page : UserPage}
    {entry : PageEntry} (found : layout.entry page = some entry)
    (resident : entry.isResident = true) {id : MappingId} {mapping : Mapping}
    (belongs : entry.mapping = some id) (live : layout.mapping id = some mapping)
    (violation : Violation) : mapping.fileRange page.2 ≠ .error violation := by
  have away : ∀ other, entry.backing ≠ .file other := by
    intro other source
    rw [PageEntry.isResident_eq_false (by simp [source])] at resident
    cases resident
  obtain ⟨known, range, live', located⟩ := regular.locates page entry found away id belongs
  cases live.symm.trans live'
  rw [located]
  simp

namespace Vm

variable {vm after : Vm arch} {origin : FramePool arch} {process : ProcessId}
  {page : PageNumber} {frame : FrameNumber}

/-- The machine is consistent, over the frames of this pool, and its pages can go back to their
files. -/
structure Guarded (origin : FramePool arch) (vm : Vm arch) : Prop where
  consistent : vm.Consistent fun _ => True
  regular : vm.layout.Regular
  extent : vm.frames.extent = origin.extent

theorem Reachable.guarded (reachable : Reachable vm) : vm.Guarded vm.frames.pool :=
  ⟨reachable.consistent, reachable.regular, rfl⟩

/-- If pages of the process are looked up in a file there, only tolerated violations are met. -/
def Locates (tolerated : Violation → Prop) (vm : Vm arch) (page : UserPage) : Prop :=
  ∀ id mapping, vm.layout.mapping id = some mapping → mapping.owner = page.1 →
    mapping.contains page.2 = true → ∀ violation,
      mapping.fileRange page.2 = .error violation → tolerated violation

theorem Locates.congr (locates : vm.Locates tolerated (process, page))
    (same : after.layout.mapping = vm.layout.mapping) :
    after.Locates tolerated (process, page) := by
  unfold Locates
  rwa [same]

/-- The contents of a resident page can be read, or a tolerated violation keeps them from being
read. -/
def Readable (tolerated : Violation → Prop) (vm : Vm arch) : Prop :=
  ∀ page frame, vm.layout.Backs page (.frame frame) →
    ∀ violation, vm.frames.pool.reach frame = .error violation → tolerated violation

theorem Readable.fewer (readable : vm.Readable tolerated)
    (fewer : ∀ page entry, after.layout.entry page = some entry →
      vm.layout.entry page = some entry)
    (extent : after.frames.extent = vm.frames.extent) : after.Readable tolerated := by
  rintro page frame ⟨entry, found, resident⟩
  rw [FramePool.reach_congr extent]
  exact readable page frame ⟨entry, fewer page entry found, resident⟩

section Addressable

variable (addressable : origin.Addressable tolerated)
include addressable

theorem Guarded.reaches (guarded : vm.Guarded origin) :
    vm.frames.pool.Addressable tolerated :=
  FramePool.Addressable.congr addressable guarded.extent

theorem Guarded.wellFormed (guarded : vm.Guarded origin) :
    ∃ ring, vm.frames.WellFormed tolerated ring ∧
      ∀ frame, frame ∈ vm.frames → frame ∈ ring := by
  obtain ⟨ring, wellFormed, settled⟩ := guarded.consistent.frames
  exact ⟨ring, { wellFormed with addressable := guarded.reaches addressable }, settled⟩

theorem Guarded.acquireFrame_satisfies (guarded : vm.Guarded origin) {request : FrameRequest}
    (optional : request.required = false) (process : ProcessId) (page : PageNumber) :
    (vm.acquireFrame request process page).Satisfies tolerated fun (_, after) =>
      after.frames.extent = origin.extent := by
  obtain ⟨ring, wellFormed, settled⟩ := guarded.wellFormed addressable
  have answers := Tenants.owners_answer_of_range tolerated (fun _ => True) vm.frames ring vm.layout
    fun moved path _ page entry id mapping found resident belongs live violation failed =>
      absurd failed ((guarded.regular.moves path).range found resident belongs live violation)
  have acquired := FrameTable.acquire_satisfies wellFormed answers settled
    ⟨guarded.consistent.tenants, .refl⟩ optional process page
  unfold acquireFrame
  refine .bind (acquired.and (FrameTable.acquire_extent request process page)) ?_
  rintro ⟨result, frames, tenants⟩ ⟨_, same⟩
  exact .pure (same.trans guarded.extent)

omit addressable in
theorem Holds.populate_extent {source : PageSource}
    (holds : vm.Holds (fun _ => True) frame (process, page))
    (reaches : vm.frames.pool.Addressable tolerated)
    (sources : vm.layout.Sources (process, page) source)
    (locates : vm.Locates tolerated (process, page)) :
    (vm.populate frame page source).Satisfies tolerated fun (_, filled) =>
      filled.frames.extent = vm.frames.extent := by
  have fills : ∀ contents, (vm.frames.setBytes frame contents).Satisfies tolerated fun filled =>
      filled.extent = vm.frames.extent := fun contents =>
    .mono ((FrameTable.setBytes_satisfies reaches holds.inside contents).and
      (FrameTable.setBytes_extent contents)) fun _ => And.right
  cases source with
  | zero => exact .pure rfl
  | swap slot =>
      obtain ⟨entry, found, source⟩ := sources
      have allocated := (holds.tenants.slots slot).mpr ⟨_, entry, found, source⟩
      refine .bind (.lift (FramePool.bytes_satisfies reaches holds.inside)) fun dest _ => ?_
      refine .bind (SwapTable.load_satisfies holds.tenants.swap allocated dest) ?_
      rintro ⟨result, contents, swap⟩ _
      exact .bind (.lift (fills contents)) fun _ same => .pure same
  | file id =>
      obtain ⟨entry, found, source⟩ := sources
      have admits := (holds.tenants.sound vm.frames.pool.page).admits _ entry found
      obtain ⟨mapping, live, owner, contains, _⟩ := admits.mapped id (admits.filed id source)
      change vm.mappings.get? id = some mapping at live
      unfold populate
      simp only [live]
      refine .bind (.lift (FramePool.bytes_satisfies reaches holds.inside)) fun dest _ => ?_
      refine .bind (.lift (.of_errors fun violation failed =>
        locates id mapping live owner contains violation (Mapping.readPage_eq_error failed))) ?_
      intro contents _
      exact .bind (.lift (fills contents)) fun _ same => .pure same

theorem Guarded.bringIn_satisfies {source : PageSource} (guarded : vm.Guarded origin)
    (live : vm.spaces.contains process = true)
    (sources : vm.layout.Sources (process, page) source)
    (locates : vm.Locates tolerated (process, page)) :
    (vm.bringIn process page source).Satisfies tolerated fun (_, after) =>
      after.frames.extent = origin.extent := by
  unfold bringIn
  refine .bind ((guarded.acquireFrame_satisfies addressable rfl process page).and
    (Vm.acquireFrame_satisfies guarded.consistent rfl process page)) ?_
  rintro ⟨acquired, held⟩ ⟨extent, _, path, outcome⟩
  cases acquired with
  | error cause => exact .pure extent
  | ok frame =>
      obtain ⟨holds, zeroed⟩ := outcome
      have reaches : held.frames.pool.Addressable tolerated := addressable.congr extent
      have sources' := sources.moves path
      have zeroed : source = .zero → held.frames.pool.page frame = Page.zero :=
        fun new => zeroed (decide_eq_true new)
      refine .bind ((holds.populate_extent reaches sources'
        (locates.congr (Layout.mapping_of_moves path))).and
          (holds.populate_satisfies sources' zeroed)) ?_
      rintro ⟨populated, filled⟩ ⟨same, outcome⟩
      cases populated with
      | error cause =>
          obtain ⟨_, holds', _⟩ := outcome
          refine .bind (.lift (holds'.release_satisfies.and FrameTable.release_extent)) ?_
          rintro frames ⟨_, same'⟩
          exact .pure (same'.trans (same.trans extent))
      | ok _ =>
          obtain ⟨swap, frames, contents, entry, rfl, supplies, _, settles⟩ := outcome
          refine .bind (.lift ((holds.mark_satisfies supplies.fills).and
            FrameTable.markNotReferenced_extent)) ?_
          rintro ⟨_, marked⟩ ⟨_, same'⟩
          have alive : held.spaces.contains process = true :=
            (congrFun (Layout.live_of_moves path) process).trans live
          obtain ⟨space, found⟩ := Tenants.live_iff.mp alive
          dsimp only
          rw [found]
          refine .bind (.lift (settles space found tolerated (reaches frame holds.inside).2)) ?_
          exact fun placed _ => .pure (same'.trans (same.trans extent))

theorem Guarded.resolveFault_satisfies (guarded : vm.Guarded origin) {fault : PageFault}
    (resident : ∀ entry, vm.layout.entry (process, fault.address.page) = some entry →
      entry.isResident = true → (fault.write = true → entry.writable = true) →
        tolerated (.faultedWhileResident fault.address.page process))
    (locates : vm.Locates tolerated (process, fault.address.page)) :
    (vm.resolveFault process fault).Satisfies tolerated fun (_, after) =>
      after.Guarded origin := by
  unfold resolveFault
  refine .bind (.lift (classify_satisfies resident)) ?_
  intro decided sources
  cases decided with
  | error cause => exact .pure guarded
  | ok source =>
      obtain ⟨live, sources, _⟩ := sources source rfl
      refine .bind .log fun _ _ => ?_
      refine .bind ((guarded.bringIn_satisfies addressable live sources locates).and
        (Vm.bringIn_satisfies guarded.consistent live sources)) ?_
      rintro ⟨result, after⟩ ⟨extent, _, consistent, brings⟩
      have effect : Effect (.resolveFault process fault) vm.layout after.layout := brings.effect
      exact .pure ⟨consistent, guarded.regular.effect guarded.consistent.layout_sound effect,
        extent⟩

theorem Guarded.userFrame_satisfies (guarded : vm.Guarded origin) {address : VirtualAddress}
    (locates : vm.Locates tolerated (process, address.page)) (write : Bool)
    (stackPointer : VirtualAddress) :
    (vm.userFrame process address write stackPointer).Satisfies tolerated fun (_, after) =>
      after.frames.extent = origin.extent := by
  have accesses := access?_spec guarded.consistent process address.page write
  unfold userFrame
  split
  · exact .pure guarded.extent
  · cases accessed : vm.access? process address.page write with
    | some used =>
        rw [accessed] at accesses
        obtain ⟨_, _, _, frames, _⟩ := accesses
        exact .pure ((congrArg FrameTable.extent frames).trans guarded.extent)
    | none =>
        rw [accessed] at accesses
        -- the fault is none that a resident page and an allowed access would make
        refine .bind (guarded.resolveFault_satisfies addressable ?_ locates) ?_
        · intro entry found resident allowed
          obtain ⟨frame, source⟩ := Option.isSome_iff_exists.mp resident
          exact absurd ⟨entry, found, PageEntry.frame?_eq_some.mp source, allowed⟩
            (accesses frame)
        · rintro ⟨resolved, after⟩ guarded'
          have again := access?_spec guarded'.consistent process address.page write
          cases resolved with
          | error cause => exact .pure guarded'.extent
          | ok _ =>
              dsimp only
              split
              · rename_i used accessed'
                rw [accessed'] at again
                obtain ⟨_, _, _, frames, _⟩ := again
                exact .pure ((congrArg FrameTable.extent frames).trans guarded'.extent)
              · exact .pure guarded'.extent

theorem Guarded.storePiece_satisfies (guarded : vm.Guarded origin) {piece : RangePiece}
    (locates : vm.Locates tolerated (process, piece.address.page)) {source : Bytes}
    (stackPointer : VirtualAddress) (fits : piece.address.offset + source.size ≤ pageSize) :
    (vm.storePiece process piece source stackPointer).Satisfies tolerated fun (_, after) =>
      after.Guarded origin ∧ after.layout.mapping = vm.layout.mapping := by
  have stores : (vm.storePiece process piece source stackPointer).Satisfies tolerated
      fun (_, after) => after.frames.extent = origin.extent := by
    unfold storePiece
    refine .bind ((guarded.userFrame_satisfies addressable locates true stackPointer).and
      (Vm.userFrame_satisfies guarded.consistent process piece.address true stackPointer)) ?_
    rintro ⟨result, used⟩ ⟨extent, _, consistent, outcome⟩
    cases result with
    | error cause => exact .pure extent
    | ok frame =>
        obtain ⟨middle, _, ⟨entry, found, resident, _⟩, layout⟩ := outcome
        have backs : used.layout.Backs (process, piece.address.page) (.frame frame) := by
          rw [layout]
          exact ⟨entry, found, resident⟩
        obtain ⟨ring, _, inside⟩ := consistent.tracked_of_grants backs
        have writes : (used.frames.write frame piece.address.offset source).Satisfies tolerated
            fun frames => frames.extent = used.frames.extent := by
          refine .bind (FramePool.write_satisfies (addressable.congr extent) inside fits) ?_
          rintro _ rfl
          exact .pure rfl
        exact .bind (.lift writes) fun _ same => .pure (same.trans extent)
  refine .mono (stores.and (Vm.storePiece_satisfies guarded.consistent process piece source
    stackPointer fits)) ?_
  rintro ⟨result, after⟩ ⟨extent, _, consistent, outcome⟩
  cases result with
  | error cause =>
      exact ⟨⟨consistent, guarded.regular.moves outcome, extent⟩,
        Layout.mapping_of_moves outcome⟩
  | ok _ =>
      refine ⟨⟨consistent, guarded.regular.stored guarded.consistent.layout_sound outcome,
        extent⟩, ?_⟩
      obtain ⟨middle, frame, reach, _, layout⟩ := outcome
      rw [layout]
      exact reach.mapping

theorem Guarded.fetchPiece_satisfies (guarded : vm.Guarded origin) {piece : RangePiece}
    (locates : vm.Locates tolerated (process, piece.address.page))
    (stackPointer : VirtualAddress) (fits : piece.address.offset + piece.length ≤ pageSize) :
    (vm.fetchPiece process piece stackPointer).Satisfies tolerated fun (_, after) =>
      after.Guarded origin ∧ after.layout.mapping = vm.layout.mapping := by
  have fetches : (vm.fetchPiece process piece stackPointer).Satisfies tolerated
      fun (_, after) => after.frames.extent = origin.extent := by
    unfold fetchPiece
    refine .bind ((guarded.userFrame_satisfies addressable locates false stackPointer).and
      (Vm.userFrame_satisfies guarded.consistent process piece.address false stackPointer)) ?_
    rintro ⟨result, used⟩ ⟨extent, _, consistent, outcome⟩
    cases result with
    | error cause => exact .pure extent
    | ok frame =>
        obtain ⟨middle, _, ⟨entry, found, resident, _⟩, layout⟩ := outcome
        have backs : used.layout.Backs (process, piece.address.page) (.frame frame) := by
          rw [layout]
          exact ⟨entry, found, resident⟩
        obtain ⟨ring, _, inside⟩ := consistent.tracked_of_grants backs
        exact .bind (.lift (FramePool.read_satisfies (addressable.congr extent) inside fits))
          fun _ _ => .pure extent
  refine .mono (fetches.and (Vm.fetchPiece_satisfies guarded.consistent process piece
    stackPointer fits)) ?_
  rintro ⟨result, after⟩ ⟨extent, _, consistent, outcome⟩
  cases result with
  | error cause =>
      exact ⟨⟨consistent, guarded.regular.moves outcome, extent⟩,
        Layout.mapping_of_moves outcome⟩
  | ok bytes =>
      obtain ⟨frame, reach, _⟩ := outcome
      exact ⟨⟨consistent, guarded.regular.reach guarded.consistent.layout_sound reach, extent⟩,
        reach.mapping⟩

theorem Guarded.writePieces_satisfies {base stackPointer : VirtualAddress} {data : Bytes}
    {pieces : List RangePiece} {start : Nat} (guarded : vm.Guarded origin)
    (tiles : RangePiece.Tiles base data.size start pieces)
    (locates : ∀ piece, piece ∈ pieces → vm.Locates tolerated (process, piece.address.page)) :
    (writePieces process base data stackPointer vm pieces).Satisfies tolerated
      fun (outcome, _) => ∀ cause, outcome.result = .error cause →
        ∃ (moved last : Vm arch) (piece : RangePiece) (source : Bytes), moved.Guarded origin ∧
          (moved.storePiece process piece source stackPointer).Yields (.error cause, last) := by
  induction tiles generalizing vm with
  | done => exact .pure fun cause failed => nomatch failed
  | @next start piece rest place fits tiles ih =>
      have within := tiles.start_le
      have first : piece.address.value - base.value = start := by omega
      unfold writePieces
      simp only [first]
      refine .bind (guarded.storePiece_satisfies addressable (locates piece List.mem_cons_self)
        stackPointer ?_).yielding ?_
      · rw [Array.size_extract]
        omega
      · rintro ⟨result, after⟩ ⟨yields, guarded', same⟩
        cases result with
        | error cause =>
            refine .pure ?_
            rintro _ ⟨⟩
            exact ⟨vm, after, piece, _, guarded, yields⟩
        | ok _ =>
            exact ih guarded' fun other member =>
              (locates other (List.mem_cons_of_mem _ member)).congr same

theorem Guarded.readPieces_satisfies {base stackPointer : VirtualAddress} {buffer : Bytes}
    {pieces : List RangePiece} {size start : Nat} (guarded : vm.Guarded origin)
    (tiles : RangePiece.Tiles base size start pieces)
    (locates : ∀ piece, piece ∈ pieces → vm.Locates tolerated (process, piece.address.page)) :
    (readPieces process base buffer stackPointer vm pieces).Satisfies tolerated
      fun (outcome, _, _) => ∀ cause, outcome.result = .error cause →
        ∃ (moved last : Vm arch) (piece : RangePiece), moved.Guarded origin ∧
          (moved.fetchPiece process piece stackPointer).Yields (.error cause, last) := by
  induction tiles generalizing vm buffer with
  | done => exact .pure fun cause failed => nomatch failed
  | @next start piece rest place fits tiles ih =>
      unfold readPieces
      refine .bind (guarded.fetchPiece_satisfies addressable (locates piece List.mem_cons_self)
        stackPointer fits).yielding ?_
      rintro ⟨result, after⟩ ⟨yields, guarded', same⟩
      cases result with
      | error cause =>
          refine .pure ?_
          rintro _ ⟨⟩
          exact ⟨vm, after, piece, guarded, yields⟩
      | ok bytes =>
          exact ih guarded' fun other member =>
            (locates other (List.mem_cons_of_mem _ member)).congr same

theorem Guarded.installPage_satisfies (guarded : vm.Guarded origin) (process : ProcessId)
    (address : VirtualAddress) (writable : Bool) :
    (vm.installPage process address writable).Satisfies tolerated fun _ => True := by
  unfold installPage
  split
  · exact .pure trivial
  · dsimp only
    cases found : vm.spaces[process]? with
    | none => exact .pure trivial
    | some space =>
        dsimp only
        split
        · exact .pure trivial
        · rename_i unlisted
          rw [Bool.not_eq_true, NumberMap.contains_eq_false] at unlisted
          have new : vm.layout.Sources (process, address.page) .zero :=
            (Tenants.entryAt_of_space found address.page).trans unlisted
          refine .bind ((guarded.acquireFrame_satisfies addressable rfl process
            address.page).and (Vm.acquireFrame_satisfies guarded.consistent rfl process
              address.page)) ?_
          rintro ⟨acquired, held⟩ ⟨extent, _, path, outcome⟩
          cases acquired with
          | error cause => exact .pure trivial
          | ok frame =>
              obtain ⟨holds, zeroed⟩ := outcome
              obtain ⟨space, found⟩ := Tenants.live_iff.mp
                ((congrFun (Layout.live_of_moves path) process).trans
                  (Tenants.live_iff.mpr ⟨space, found⟩))
              have absent : space.entries[address.page]? = none :=
                (Tenants.entryAt_of_space found address.page).symm.trans (new.moves path)
              have start := (addressable.congr extent frame holds.inside).2
              dsimp only
              rw [found]
              refine .bind (.lift (AddressSpace.installFrame_satisfies (holds.coherent found)
                absent start writable)) ?_
              rintro ⟨_, placed⟩ ⟨rfl, _⟩
              refine .bind (.lift (.require rfl)) fun _ _ => ?_
              exact .bind (.lift (holds.mark_satisfies (FrameTable.Fills.refl held.frames frame)))
                fun _ _ => .pure trivial

theorem Guarded.readable (guarded : vm.Guarded origin) : vm.Readable tolerated := by
  rintro page frame ⟨entry, found, resident⟩
  obtain ⟨_, _, inside⟩ := guarded.consistent.tracked_of_grants ⟨entry, found, resident⟩
  exact (guarded.reaches addressable frame inside).1

end Addressable

theorem Guarded.writeBack_satisfies (guarded : vm.Guarded origin)
    (readable : vm.Readable tolerated) {space : AddressSpace arch} {entry : PageEntry}
    (found : vm.spaces[process]? = some space)
    (listed : space.entries[page]? = some entry) (resident : entry.backing = .frame frame)
    {mapping : Mapping} (belongs : entry.mapping = some mapping.id)
    (live : vm.mappings.get? mapping.id = some mapping) :
    (space.writeBack vm.stores mapping page frame).Satisfies tolerated fun _ => True := by
  have present : vm.layout.entry (process, page) = some entry :=
    (Tenants.entryAt_of_space found page).trans listed
  have range := guarded.regular.range present (PageEntry.isResident_of_frame resident) belongs live
  have reads : (vm.frames.bytes frame).Satisfies tolerated fun _ => True :=
    .bind (.of_errors (readable _ frame ⟨entry, present, resident⟩)) fun _ _ => .pure trivial
  unfold AddressSpace.writeBack
  split
  · refine .bind (.lift reads) fun source _ => ?_
    refine .bind (.lift (.of_errors fun violation failed =>
      absurd (Mapping.writePage_eq_error failed) (range violation))) ?_
    rintro ⟨result, files⟩ _
    cases result with
    | ok _ => exact .pure trivial
    | error cause => exact .bind .log fun _ _ => .pure trivial
  · exact .pure trivial

theorem Guarded.uninstall_satisfies (guarded : vm.Guarded origin)
    (readable : vm.Readable tolerated) {space : AddressSpace arch}
    (found : vm.spaces[process]? = some space) {mapping : Mapping}
    (live : vm.mappings.get? mapping.id = some mapping) (page : PageNumber) :
    (space.uninstall vm.stores mapping page).Satisfies tolerated fun (_, _, stores) =>
      stores.frames.extent = origin.extent := by
  unfold AddressSpace.uninstall
  cases listed : space.entries[page]? with
  | none => exact .pure guarded.extent
  | some entry =>
      have present : vm.layout.entry (process, page) = some entry :=
        (Tenants.entryAt_of_space found page).trans listed
      dsimp only
      split
      · exact .pure guarded.extent
      · rename_i belongs
        rw [not_not] at belongs
        cases resident : entry.backing with
        | file id => exact .pure guarded.extent
        | swap slot =>
            have allocated :=
              (guarded.consistent.tenants.slots slot).mpr ⟨_, entry, present, resident⟩
            exact .bind (.lift (guarded.consistent.frees_slot allocated)) fun _ _ =>
              .pure guarded.extent
        | frame frame =>
            have tracked : frame ∈ vm.frames := FrameTable.mem_of_ownerOf
              ((guarded.consistent.tenants.owners frame _).mpr ⟨entry, present, resident⟩)
            refine .bind (guarded.writeBack_satisfies readable found listed resident belongs
              live) fun files _ => ?_
            refine .bind (.lift ((guarded.consistent.frees_frame tracked).and
              FrameTable.release_extent)) ?_
            rintro frames ⟨_, same⟩
            exact .pure (same.trans guarded.extent)

theorem Guarded.loses (guarded : vm.Guarded origin) {ended : MappingId → Prop}
    (loses : Loses (fun _ => True) ended vm after) (extent : after.frames.extent = origin.extent) :
    after.Guarded origin :=
  ⟨loses.consistent, guarded.regular.shrinks loses.path, extent⟩

theorem Guarded.removeMapping_satisfies (guarded : vm.Guarded origin)
    (readable : vm.Readable tolerated) {id : MappingId} {mapping : Mapping}
    (live : vm.layout.mapping id = some mapping) :
    (vm.removeMapping id).Satisfies tolerated fun (_, after) =>
      after.frames.extent = origin.extent := by
  obtain rfl := guarded.consistent.layout_sound.named id mapping live
  obtain ⟨space, found⟩ :=
    Tenants.live_iff.mp (guarded.consistent.layout_sound.housed mapping.id mapping live)
  change vm.mappings.get? mapping.id = some mapping at live
  unfold removeMapping
  simp only [live, found]
  refine .bind (.foldlM (fun rest removal =>
    Removing (fun _ => True) (· ∈ [mapping.id]) vm mapping rest removal ∧
      removal.stores.frames.extent = origin.extent) ?_ ?_) ?_
  · exact ⟨guarded.consistent.removing found _, guarded.extent⟩
  · rintro page rest removal ⟨removing, extent⟩
    have drops : (Removal.dropPage mapping removal page).Satisfies tolerated fun dropped =>
        dropped.stores.frames.extent = origin.extent := by
      have guarded' := guarded.loses removing.loses extent
      have readable' := readable.fewer removing.loses.fewer (extent.trans guarded.extent.symm)
      refine .bind (guarded'.uninstall_satisfies readable'
        (during_spaces vm mapping.owner removal.space removal.stores) live page) ?_
      rintro ⟨removed, placed, stores⟩ extent'
      exact .pure extent'
    refine .mono (drops.and (removing.dropPage_satisfies live List.mem_cons_self)) ?_
    exact fun dropped both => both.symm
  · rintro removal ⟨_, extent⟩
    exact .bind .log fun _ _ => .pure extent

theorem Guarded.removeMappings_satisfies (guarded : vm.Guarded origin)
    (readable : vm.Readable tolerated) {ids : List MappingId}
    (nodup : ids.Nodup) (live : ∀ id, id ∈ ids → (vm.layout.mapping id).isSome) :
    (vm.removeMappings ids).Satisfies tolerated fun (_, after) =>
      after.frames.extent = origin.extent := by
  induction ids generalizing vm with
  | nil => exact .pure guarded.extent
  | cons id rest ih =>
      obtain ⟨fresh, nodup⟩ := List.nodup_cons.mp nodup
      obtain ⟨mapping, found⟩ := Option.isSome_iff_exists.mp (live id List.mem_cons_self)
      refine .bind ((guarded.removeMapping_satisfies readable found).and
        (Vm.removeMapping_satisfies guarded.consistent found)) ?_
      rintro ⟨_, middle⟩ ⟨extent, rfl, unmaps⟩
      have readable' := readable.fewer unmaps.loses.fewer (extent.trans guarded.extent.symm)
      refine ih (guarded.loses unmaps.loses extent) readable' nodup fun other member => ?_
      rw [unmaps.mapping, if_neg]
      · exact live other (List.mem_cons_of_mem id member)
      · rw [List.mem_singleton]
        rintro rfl
        exact fresh member

theorem Guarded.exitProcess_satisfies (guarded : vm.Guarded origin)
    (readable : vm.Readable tolerated) (process : ProcessId) :
    (vm.exitProcess process).Satisfies tolerated fun _ => True := by
  unfold exitProcess
  split
  · exact .pure trivial
  · have owned : ∀ id, id ∈ vm.mappings.ownedBy process ↔
        ∃ mapping, vm.layout.mapping id = some mapping ∧ mapping.owner = process :=
      fun id => MappingTable.mem_ownedBy
    have nodup := MappingTable.nodup_ownedBy vm.mappings process
    have live : ∀ id, id ∈ vm.mappings.ownedBy process → (vm.layout.mapping id).isSome := by
      intro id member
      obtain ⟨mapping, live, _⟩ := (owned id).mp member
      exact Option.isSome_iff_exists.mpr ⟨mapping, live⟩
    refine .bind ((guarded.removeMappings_satisfies readable nodup live).and
      (Vm.removeMappings_satisfies guarded.consistent nodup live)) ?_
    rintro ⟨_, middle⟩ ⟨extent, rfl, unmaps⟩
    cases found : middle.spaces[process]? with
    | none => simp only [found]; exact .pure trivial
    | some space =>
        simp only [found]
        refine .bind (.lift (destroy_satisfies unmaps.loses.consistent found
          (unmaps.anonymous owned) fun _ => False)) fun _ _ => ?_
        exact .bind .log fun _ _ => .pure trivial

end Vm
end DemandPaging
