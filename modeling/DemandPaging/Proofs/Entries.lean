import DemandPaging.Proofs.Departure
import DemandPaging.Proofs.Offsets
import DemandPaging.Proofs.Resolution
import DemandPaging.Proofs.Roles

/-!
Which operations change which entries. An operation gives entries to pages that it installs or
maps, or where it grows a stack, and takes them away only at the end of a mapping or of a process.
Any operation that needs a frame may take it from a page of any process; nothing else happens to
the entries of other processes.
-/

namespace DemandPaging

variable {arch : Architecture} {tolerated : Violation → Prop}

namespace PageEntry

/-- An entry stays as it is, or its frame is taken from it, and the contents go to swap or to the
file of its mapping. -/
inductive Cedes : Option PageEntry → Option PageEntry → Prop
  | stays (entry : Option PageEntry) : Cedes entry entry
  | toSwap (entry : PageEntry) (frame : FrameNumber) (slot : SwapSlot)
      (resident : entry.backing = .frame frame) :
      Cedes (some entry) (some { entry with backing := .swap slot })
  | toFile (entry : PageEntry) (frame : FrameNumber) (id : MappingId)
      (resident : entry.backing = .frame frame) (belongs : entry.mapping = some id) :
      Cedes (some entry) (some { entry with backing := .file id })

theorem Cedes.trans {before middle after : Option PageEntry} (first : Cedes before middle)
    (last : Cedes middle after) : Cedes before after := by
  cases first with
  | stays => exact last
  | toSwap entry frame slot resident =>
      cases last with
      | stays => exact .toSwap entry frame slot resident
      | toSwap _ _ _ again | toFile _ _ _ again => cases again
  | toFile entry frame id resident belongs =>
      cases last with
      | stays => exact .toFile entry frame id resident belongs
      | toSwap _ _ _ again | toFile _ _ _ again => cases again

end PageEntry

namespace Layout

variable {layout middle moved : Layout} {page : UserPage} {process : ProcessId}
  {reason : PageNumber → Prop}

theorem cedes_of_shift (step : Shift layout moved) (page : UserPage) :
    PageEntry.Cedes (layout.entry page) (moved.entry page) := by
  cases step with
  | scratchSlot | scratchFrame | writeBack => exact .stays _
  | toSwap other entry frame slot found resident =>
      rw [place_entry]
      split
      · rename_i same
        rw [same, found]
        exact .toSwap entry frame slot resident
      · exact .stays _
  | toFile other entry frame id mapping found resident belongs =>
      rw [place_entry]
      split
      · rename_i same
        rw [same, found]
        exact .toFile entry frame id resident belongs
      · exact .stays _

theorem cedes_of_moves (path : Relation.ReflTransGen Shift layout moved) (page : UserPage) :
    PageEntry.Cedes (layout.entry page) (moved.entry page) := by
  induction path with
  | refl => exact .stays _
  | tail _ step ih => exact ih.trans (cedes_of_shift step page)

theorem entry_of_arrival_ne {frame : FrameNumber} (arrival : Arrival page frame layout moved)
    {other : UserPage} (apart : other ≠ page) : moved.entry other = layout.entry other := by
  cases arrival with
  | fresh | swapped | filed => exact (place_entry ..).trans (if_neg apart)

/-- What becomes of entries while a process is served. Pages of the process get entries for a
reason, no entry goes or is for another purpose then, and those of other processes cede frames. -/
structure Serves (process : ProcessId) (reason : PageNumber → Prop) (layout moved : Layout) :
    Prop where
  gained : ∀ page, layout.entry page = none → (moved.entry page).isSome →
    page.1 = process ∧ reason page.2
  roles : ∀ page, (layout.entry page).isSome → moved.role page = layout.role page
  others : ∀ page, page.1 ≠ process → PageEntry.Cedes (layout.entry page) (moved.entry page)

namespace Serves

theorem congr (serves : Serves process reason layout middle) (same : moved.entry = middle.entry) :
    Serves process reason layout moved := by
  obtain ⟨gained, roles, others⟩ := serves
  unfold role at roles
  rw [← same] at gained roles others
  exact ⟨gained, roles, others⟩

theorem trans (first : Serves process reason layout middle)
    (last : Serves process reason middle moved) : Serves process reason layout moved := by
  refine ⟨fun page new present => ?_, fun page known => ?_, fun page foreign =>
    (first.others page foreign).trans (last.others page foreign)⟩
  · cases between : middle.entry page with
    | none => exact last.gained page between present
    | some entry => exact first.gained page new (Option.isSome_iff_exists.mpr ⟨entry, between⟩)
  · have same := first.roles page known
    refine (last.roles page ?_).trans same
    rwa [← role_isSome, same, role_isSome]

theorem imp {also : PageNumber → Prop} (serves : Serves process reason layout moved)
    (weaker : ∀ number, reason number → also number) : Serves process also layout moved :=
  ⟨fun page new present => (serves.gained page new present).imp_right (weaker page.2),
    serves.roles, serves.others⟩

theorem of_moves (path : Relation.ReflTransGen Shift layout moved) :
    Serves process reason layout moved := by
  refine ⟨fun page new present => ?_, fun page _ => role_of_moves path page,
    fun page _ => cedes_of_moves path page⟩
  rw [← role_isSome, role_of_moves path, role_isSome, new] at present
  cases present

theorem refl (layout : Layout) : Serves process reason layout layout :=
  .of_moves .refl

theorem of_arrival {number : PageNumber} {frame : FrameNumber}
    (arrival : Arrival (process, number) frame layout moved)
    (grows : layout.entry (process, number) = none → reason number) :
    Serves process reason layout moved := by
  refine ⟨fun page new present => ?_, fun page known => role_of_arrival arrival known,
    fun page foreign => ?_⟩
  · by_cases here : page = (process, number)
    · subst here
      exact ⟨rfl, grows new⟩
    · rw [entry_of_arrival_ne arrival here, new] at present
      cases present
  · rw [entry_of_arrival_ne arrival fun here => foreign (congrArg Prod.fst here)]
    exact .stays _

theorem of_brings {number : PageNumber} {frame : FrameNumber}
    (path : Relation.ReflTransGen Shift layout middle)
    (arrival : Arrival (process, number) frame middle moved)
    (grows : layout.entry (process, number) = none → reason number) :
    Serves process reason layout moved := by
  refine (of_moves path).trans (of_arrival arrival fun new => grows ?_)
  rw [← Option.isNone_iff_eq_none, ← Option.not_isSome] at new ⊢
  rwa [← role_isSome, ← role_of_moves path, role_isSome]

theorem of_reach {number : PageNumber} (reach : Reach (process, number) layout moved)
    (grows : layout.entry (process, number) = none → reason number) :
    Serves process reason layout moved := by
  cases reach with
  | here => exact .refl layout
  | brought middle frame moved path arrival => exact of_brings path arrival grows

theorem of_stored {piece : RangePiece} {source : Bytes}
    (stored : Stored process piece source layout moved)
    (grows : layout.entry (process, piece.address.page) = none → reason piece.address.page) :
    Serves process reason layout moved := by
  obtain ⟨middle, frame, reach, _, rfl⟩ := stored
  exact (of_reach reach grows).congr rfl

theorem of_extend {mapping : Mapping}
    (free : ∀ page, mapping.contains page → layout.entry (mapping.owner, page) = none) :
    Serves mapping.owner (mapping.contains ·) layout (layout.extend mapping) := by
  refine ⟨fun page new present => ?_, fun page known => ?_, fun page foreign => ?_⟩
  · rw [extend_entry] at present
    split at present
    · assumption
    · rw [new] at present
      cases present
  · unfold role
    rw [extend_entry, if_neg]
    rintro ⟨own, inside⟩
    obtain ⟨owner, number⟩ := page
    cases own
    rw [free number inside] at known
    cases known
  · rw [extend_entry, if_neg fun inside => foreign inside.1]
    exact .stays _

end Serves
end Layout

namespace Vm

variable {vm after : Vm arch} {process : ProcessId}

/-- An access to a page without an entry grows the stack: its address is in the stack region, and
no lower than the stack pointer less the slack. -/
def Grows (vm : Vm arch) (address stackPointer : VirtualAddress) : Prop :=
  vm.stack.contains arch address = true ∧ stackPointer.value - vm.stack.slack ≤ address.value

theorem resolveFault_grows (vm : Vm arch) (process : ProcessId) (fault : PageFault) :
    (vm.resolveFault process fault).Satisfies (fun _ => True) fun (result, _) =>
      ∀ frame, result = .ok frame → vm.entryAt (process, fault.address.page) = none →
        vm.Grows fault.address fault.stackPointer := by
  unfold resolveFault
  refine .bind (.lift (.of_errors fun _ _ => trivial)) fun decided classified => ?_
  cases decided with
  | error cause => exact .pure (by rintro frame ⟨⟩)
  | ok source =>
      refine .bind .log fun _ _ => .bind .any fun _ _ => .pure fun frame _ new => ?_
      cases user : fault.address.isUser arch with
      | false => cases (classify_of_kernel user).symm.trans classified
      | true =>
          cases alive : vm.spaces.contains process with
          | false => cases (classify_of_absent user alive).symm.trans classified
          | true =>
              have decided := Except.ok.inj ((classify_of_new user alive new).symm.trans classified)
              rw [faultSource_of_new] at decided
              split at decided
              · cases decided
              · rename_i inside
                split at decided
                · cases decided
                · rename_i above
                  exact ⟨Bool.not_eq_false _ ▸ inside, Nat.le_of_not_lt above⟩

theorem resolveFault_serves (consistent : vm.Consistent fun _ => True) (process : ProcessId)
    (fault : PageFault) :
    (vm.resolveFault process fault).Satisfies (fun _ => True) fun (_, after) =>
      vm.layout.Serves process (fun number => fault.address.page = number ∧
        vm.Grows fault.address fault.stackPointer) after.layout := by
  refine .mono ((resolveFault_satisfies consistent fun _ _ _ _ => trivial).and
    (vm.resolveFault_grows process fault)) ?_
  rintro ⟨result, after⟩ ⟨⟨_, _, brings, _⟩, grows⟩
  cases result with
  | error cause => exact .of_moves brings
  | ok frame =>
      obtain ⟨_, ⟨middle, path, arrival⟩, _⟩ := brings
      exact .of_brings path arrival fun new => ⟨rfl, grows frame rfl new⟩

theorem handleFault_serves (consistent : vm.Consistent fun _ => True) (process : ProcessId)
    (fault : PageFault) :
    (vm.handleFault process fault).Satisfies (fun _ => True) fun (_, after) =>
      vm.layout.Serves process (fun number => fault.address.page = number ∧
        vm.Grows fault.address fault.stackPointer) after.layout := by
  unfold handleFault
  refine .bind (resolveFault_serves consistent process fault) ?_
  rintro ⟨result, after⟩ serves
  cases result with
  | error cause => exact .bind .log fun _ _ => .pure serves
  | ok frame => exact .pure serves

theorem installPage_serves (consistent : vm.Consistent tolerated) (process : ProcessId)
    (address : VirtualAddress) (writable : Bool) :
    (vm.installPage process address writable).Satisfies tolerated fun (_, after) =>
      vm.layout.Serves process (address.page = ·) after.layout := by
  refine .mono (installPage_satisfies consistent process address writable) ?_
  rintro ⟨result, after⟩ ⟨_, _, outcome⟩
  cases result with
  | error cause => exact .of_moves outcome
  | ok frame =>
      obtain ⟨_, middle, path, arrival⟩ := outcome
      exact .of_brings path arrival fun _ => rfl

theorem userFrame_grows (consistent : vm.Consistent tolerated) (process : ProcessId)
    (address : VirtualAddress) (write : Bool) (stackPointer : VirtualAddress) :
    (vm.userFrame process address write stackPointer).Satisfies (fun _ => True)
      fun (result, _) => ∀ frame, result = .ok frame →
        vm.entryAt (process, address.page) = none → vm.Grows address stackPointer := by
  unfold userFrame
  split
  · exact .pure (by rintro frame ⟨⟩)
  · have spec := access?_spec consistent process address.page write
    cases access : vm.access? process address.page write with
    | some answer =>
        rw [access] at spec
        obtain ⟨⟨entry, present, _⟩, _⟩ := spec
        exact .pure fun frame _ new => absurd (present.symm.trans new) (by simp)
    | none =>
        refine .bind (vm.resolveFault_grows process ⟨address, write, stackPointer⟩) ?_
        rintro ⟨result, faulted⟩ grows
        cases result with
        | error cause => exact .pure (by rintro frame ⟨⟩)
        | ok frame =>
            dsimp only
            split
            · exact .pure fun _ _ new => grows frame rfl new
            · exact .pure (by rintro frame ⟨⟩)

/-- One of the bytes of a range is on the page, and an access to it grows the stack. -/
def GrowsWithin (vm : Vm arch) (address : VirtualAddress) (length : Nat)
    (stackPointer : VirtualAddress) (page : PageNumber) : Prop :=
  ∃ i < length, (⟨address.value + i⟩ : VirtualAddress).page = page ∧
    vm.Grows ⟨address.value + i⟩ stackPointer

theorem growsWithin_of_access {now used : Vm arch} (consistent : now.Consistent tolerated)
    (stack : now.stack = vm.stack) {address stackPointer : VirtualAddress} {length : Nat}
    {piece : RangePiece} (listed : piece ∈ RangePiece.ofRange address length) {write : Bool}
    {frame : FrameNumber}
    (accessed : (now.userFrame process piece.address write stackPointer).Yields (.ok frame, used))
    (new : now.entryAt (process, piece.address.page) = none) :
    vm.GrowsWithin address length stackPointer piece.address.page := by
  have grows := (userFrame_grows consistent process piece.address write
    stackPointer).of_yields accessed frame rfl new
  obtain ⟨i, inside, place⟩ := (RangePiece.opens_of_mem_ofRange listed).2.1
  unfold Grows at grows
  rw [stack, place] at grows
  rw [place]
  exact ⟨i, inside, rfl, grows⟩

theorem copyToUser_serves (consistent : vm.Consistent tolerated) (process : ProcessId)
    (address : VirtualAddress) (data : Bytes) (stackPointer : VirtualAddress) :
    (vm.copyToUser process address data stackPointer).Satisfies tolerated fun (_, after) =>
      vm.layout.Serves process (vm.GrowsWithin address data.size stackPointer) after.layout := by
  unfold copyToUser
  split
  · refine .mono (writePieces_satisfies
      (fun _ rest now => now.stack = vm.stack ∧
        vm.layout.Serves process (vm.GrowsWithin address data.size stackPointer) now.layout ∧
        ∀ piece ∈ rest, piece ∈ RangePiece.ofRange address data.size)
      (fun _ last => vm.layout.Serves process (vm.GrowsWithin address data.size stackPointer)
        last.layout) ?_ ?_ (fun _ holds => holds.2.1) (RangePiece.tiles_ofRange address data.size)
      consistent ⟨rfl, .refl _, fun _ listed => listed⟩) fun _ h => h.2.2
    · rintro start piece rest now last consistent' ⟨stack, serves, listed⟩ _ fits _ yields stored
      refine ⟨?_, serves.trans (.of_stored stored fun new => ?_), fun other later =>
        listed other (List.mem_cons_of_mem piece later)⟩
      · have spec := storePiece_satisfies consistent' process piece
          (data.extract start (start + piece.length)) stackPointer
          (by rw [Array.size_extract]; omega)
        exact (spec.of_yields yields).1.trans stack
      · obtain ⟨⟨result, used⟩, accessed, ends⟩ := Run.yields_bind.mp yields
        cases result with
        | error cause => cases ends
        | ok frame =>
            exact growsWithin_of_access consistent' stack (listed piece List.mem_cons_self)
              accessed new
    · rintro _ _ _ now last _ _ ⟨_, serves, _⟩ _ _ path
      exact serves.trans (.of_moves path)
  · exact .pure (.refl _)

theorem copyFromUser_serves (consistent : vm.Consistent tolerated) (process : ProcessId)
    (address : VirtualAddress) (buffer : Bytes) (stackPointer : VirtualAddress) :
    (vm.copyFromUser process address buffer stackPointer).Satisfies tolerated
      fun (_, _, after) => vm.layout.Serves process
        (vm.GrowsWithin address buffer.size stackPointer) after.layout := by
  unfold copyFromUser
  split
  · refine .mono (readPieces_satisfies
      (fun _ rest _ now => now.stack = vm.stack ∧
        vm.layout.Serves process (vm.GrowsWithin address buffer.size stackPointer) now.layout ∧
        ∀ piece ∈ rest, piece ∈ RangePiece.ofRange address buffer.size)
      (fun _ _ last => vm.layout.Serves process (vm.GrowsWithin address buffer.size stackPointer)
        last.layout) ?_ ?_ (fun _ _ holds => holds.2.1) rfl
      (RangePiece.tiles_ofRange address buffer.size) consistent
      ⟨rfl, .refl _, fun _ listed => listed⟩) fun _ h => h.2.2
    · rintro _ piece rest _ _ now last consistent' _ ⟨stack, serves, listed⟩ _ fits _ yields
        ⟨_, reach, _⟩
      refine ⟨?_, serves.trans (.of_reach reach fun new => ?_), fun other later =>
        listed other (List.mem_cons_of_mem piece later)⟩
      · have spec := fetchPiece_satisfies consistent' process piece stackPointer fits
        exact (spec.of_yields yields).1.trans stack
      · obtain ⟨⟨result, used⟩, accessed, ends⟩ := Run.yields_bind.mp yields
        cases result with
        | error cause => cases ends
        | ok frame =>
            exact growsWithin_of_access consistent' stack (listed piece List.mem_cons_self)
              accessed new
    · rintro _ _ _ _ now last _ _ ⟨_, serves, _⟩ _ path
      exact serves.trans (.of_moves path)
  · exact .pure (.refl _)

/-- A page is among those that a range of this length reaches into. -/
def Covers (address : VirtualAddress) (length : Nat) (page : PageNumber) : Prop :=
  ∃ i < pagesFor length, page.value = address.page.value + i

theorem covers_of_contains {mapping : Mapping} {page : PageNumber}
    (inside : mapping.contains page = true) : Covers mapping.segment.address
      (mapping.segment.fileLength + mapping.segment.zeroLength) page := by
  unfold Mapping.contains at inside
  simp only [Bool.and_eq_true, decide_eq_true_eq] at inside
  exact ⟨page.value - mapping.base.value, inside.2, (Nat.add_sub_of_le inside.1).symm⟩

theorem mapSegment_serves (consistent : vm.Consistent fun _ => True) (process : ProcessId)
    (segment : Segment) :
    (vm.mapSegment process segment).Satisfies (fun _ => True) fun (_, after) =>
      vm.layout.Serves process
        (Covers segment.address (segment.fileLength + segment.zeroLength)) after.layout := by
  refine .mono (mapSegment_satisfies consistent fun _ _ _ _ _ _ => trivial) ?_
  rintro ⟨result, after⟩ outcome
  cases result with
  | error cause =>
      cases outcome
      exact .refl _
  | ok id =>
      obtain ⟨_, _, _, _, mapping, _, rfl, rfl, _, free, layout⟩ := outcome
      dsimp only
      rw [layout]
      exact (Layout.Serves.of_extend free).imp fun _ => covers_of_contains

theorem createMapping_serves (consistent : vm.Consistent fun _ => True) (process : ProcessId)
    (file : FileId) (address : VirtualAddress) (length : Nat) :
    (vm.createMapping process file address length).Satisfies (fun _ => True) fun (_, after) =>
      vm.layout.Serves process (Covers address length) after.layout := by
  unfold createMapping
  dsimp only
  split
  · exact .pure (.refl _)
  · refine .mono (mapSegment_serves consistent process _) fun _ serves => serves.imp ?_
    unfold Segment.wholeFile
    rintro number ⟨i, inside, place⟩
    rw [Nat.add_sub_of_le (Nat.min_le_left ..)] at inside
    exact ⟨i, inside, place⟩

theorem destroyMapping_strips (vm : Vm arch) (process : ProcessId) (id : MappingId) :
    (vm.destroyMapping process id).Satisfies (fun _ => True) fun (_, after) =>
      vm.Strips process after := by
  unfold destroyMapping
  split
  · rename_i mine
    obtain ⟨mapping, live, owner⟩ := (Option.any_eq_true _ _).mp mine
    refine removeMapping_strips fun other live' => ?_
    cases live.symm.trans live'
    exact of_decide_eq_true owner
  · exact .pure (.refl process vm)

def Operation.process? : Operation → Option ProcessId
  | .createProcess process | .exitProcess process | .handleFault process _
  | .resolveFault process _ | .installPage process _ _ | .createMapping process _ _ _
  | .mapSegment process _ | .destroyMapping process _ | .copyToUser process _ _ _
  | .copyFromUser process _ _ _ => some process
  | .setFailingSectors _ _ | .setTransferCaps _ _ _ | .replaceFile _ _ => none

/-- An operation may give a page its entry: it installs the page, maps a region over it, or
accesses it where the stack grows. -/
def Operation.Creates (vm : Vm arch) (page : UserPage) : Operation → Prop
  | .installPage process address _ => page.1 = process ∧ address.page = page.2
  | .createMapping process _ address length => page.1 = process ∧ Covers address length page.2
  | .mapSegment process segment =>
    page.1 = process ∧ Covers segment.address (segment.fileLength + segment.zeroLength) page.2
  | .handleFault process fault | .resolveFault process fault =>
    page.1 = process ∧ fault.address.page = page.2 ∧ vm.Grows fault.address fault.stackPointer
  | .copyToUser process address data stackPointer =>
    page.1 = process ∧ vm.GrowsWithin address data.size stackPointer page.2
  | .copyFromUser process address buffer stackPointer =>
    page.1 = process ∧ vm.GrowsWithin address buffer.size stackPointer page.2
  | _ => False

/-- An operation may take a page its entry: it ends the process or the mapping of the page. -/
def Operation.Removes (page : UserPage) (entry : PageEntry) : Operation → Prop
  | .exitProcess process => page.1 = process
  | .destroyMapping process id => page.1 = process ∧ entry.mapping = some id
  | _ => False

/-- What an operation may do to the entries of pages. -/
structure Edits (operation : Operation) (vm after : Vm arch) : Prop where
  gained : ∀ page entry, vm.entryAt page = none → after.entryAt page = some entry →
    operation.Creates vm page
  lost : ∀ page entry, vm.entryAt page = some entry → after.entryAt page = none →
    operation.Removes page entry
  kept : ∀ page entry later, vm.entryAt page = some entry → after.entryAt page = some later →
    later.writable = entry.writable ∧ later.mapping = entry.mapping
  others : ∀ page, operation.process? ≠ some page.1 →
    PageEntry.Cedes (vm.entryAt page) (after.entryAt page)

namespace Edits

variable {operation : Operation}

theorem of_serves {reason : PageNumber → Prop} (mine : operation.process? = some process)
    (serves : vm.layout.Serves process reason after.layout)
    (creates : ∀ number, reason number → operation.Creates vm (process, number)) :
    Edits operation vm after := by
  refine ⟨?_, ?_, ?_, ?_⟩
  · rintro ⟨owner, number⟩ entry new found
    obtain ⟨rfl, reached⟩ := serves.gained _ new (Option.isSome_iff_exists.mpr ⟨entry, found⟩)
    exact creates number reached
  · intro page entry found gone
    have role := serves.roles page (Option.isSome_iff_exists.mpr ⟨entry, found⟩)
    obtain ⟨later, present, _⟩ := Layout.entry_of_role role found
    cases gone.symm.trans present
  · intro page entry later found present
    have role := serves.roles page (Option.isSome_iff_exists.mpr ⟨entry, found⟩)
    obtain ⟨_, present', same⟩ := Layout.entry_of_role role found
    cases present.symm.trans present'
    exact same
  · intro page foreign
    refine serves.others page fun own => foreign ?_
    rw [mine, own]

theorem of_same (same : after.layout.entry = vm.layout.entry) : Edits operation vm after := by
  have same' : ∀ page, after.entryAt page = vm.entryAt page := congrFun same
  refine ⟨?_, ?_, ?_, ?_⟩
  · intro page entry new found
    cases found.symm.trans ((same' page).trans new)
  · intro page entry found gone
    cases gone.symm.trans ((same' page).trans found)
  · intro page entry later found present
    cases present.symm.trans ((same' page).trans found)
    exact ⟨rfl, rfl⟩
  · intro page _
    rw [same']
    exact .stays _

theorem of_fewer (mine : operation.process? = some process)
    (fewer : ∀ page entry, after.entryAt page = some entry → vm.entryAt page = some entry)
    (others : ∀ other, other ≠ process → after.spaces[other]? = vm.spaces[other]?)
    (removes : ∀ number entry, vm.entryAt (process, number) = some entry →
      after.entryAt (process, number) = none → operation.Removes (process, number) entry) :
    Edits operation vm after := by
  have same : ∀ page : UserPage, page.1 ≠ process → after.entryAt page = vm.entryAt page := by
    intro page foreign
    unfold Tenants.entryAt
    rw [others page.1 foreign]
  refine ⟨?_, ?_, ?_, ?_⟩
  · intro page entry new found
    cases new.symm.trans (fewer page entry found)
  · rintro ⟨owner, number⟩ entry found gone
    by_cases own : owner = process
    · subst own
      exact removes number entry found gone
    · cases gone.symm.trans ((same (owner, number) own).trans found)
  · intro page entry later found present
    cases found.symm.trans (fewer page later present)
    exact ⟨rfl, rfl⟩
  · intro page foreign
    rw [same page fun own => foreign (own ▸ mine)]
    exact .stays _

end Edits

theorem destroyMapping_edits (consistent : vm.Consistent fun _ => True) {id : MappingId}
    {result : Except VmError Unit}
    (yields : (vm.destroyMapping process id).Yields (result, after)) :
    Edits (.destroyMapping process id) vm after := by
  have strips := (vm.destroyMapping_strips process id).of_yields yields
  have outcome := (destroyMapping_satisfies consistent process id).of_yields yields
  cases result with
  | error cause =>
      obtain ⟨rfl, _⟩ := outcome
      exact .of_same rfl
  | ok _ =>
      refine .of_fewer rfl outcome.loses.fewer strips.others
        fun number entry found gone => ⟨rfl, ?_⟩
      obtain ⟨space, alive, listed⟩ := Tenants.space_of_entryAt found
      obtain ⟨left, alive', kept⟩ := strips.own space alive
      have unlisted := (Tenants.entryAt_of_space alive' number).symm.trans gone
      cases belongs : entry.mapping with
      | none => cases unlisted.symm.trans ((kept number entry belongs).mpr listed)
      | some other =>
          have role : vm.layout.role (process, number) = some (entry.writable, some other) := by
            rw [← belongs]
            exact congrArg (Option.map _) found
          obtain same | ⟨_, ends⟩ :=
            Layout.retains_of_shrinks outcome.loses.path (process, number)
          · obtain ⟨_, present, _⟩ := Layout.entry_of_role same found
            cases gone.symm.trans present
          · rw [List.mem_singleton.mp (ends entry.writable other role)]

theorem exitProcess_edits (consistent : vm.Consistent fun _ => True)
    {result : Except VmError Teardown}
    (yields : (vm.exitProcess process).Yields (result, after)) :
    Edits (.exitProcess process) vm after := by
  have outcome := (exitProcess_satisfies consistent process).of_yields yields
  cases result with
  | error cause =>
      obtain ⟨rfl, _⟩ := outcome
      exact .of_same rfl
  | ok _ =>
      exact .of_fewer rfl outcome.loses.fewer (exitProcess_sheds yields).others fun _ _ _ _ => rfl

/-- Every operation edits entries only as it may. -/
theorem Reachable.step_edits (reachable : Reachable vm) {operation : Operation} {answer : Answer}
    (yields : (vm.step operation).Yields (answer, after)) : Edits operation vm after := by
  have consistent := reachable.consistent
  cases operation with
  | setFailingSectors | setTransferCaps | replaceFile =>
      cases yields
      exact .of_same rfl
  | createProcess process =>
      obtain ⟨⟨result, last⟩, created, ends⟩ := Run.yields_bind.mp yields
      cases ends
      have outcome := (createProcess_satisfies consistent process).of_yields created
      cases result with
      | error cause =>
          cases outcome
          exact .of_same rfl
      | ok _ =>
          refine .of_same ?_
          rw [outcome.2.2.2]
          rfl
  | exitProcess process =>
      obtain ⟨⟨result, last⟩, exited, ends⟩ := Run.yields_bind.mp yields
      cases ends
      exact exitProcess_edits consistent exited
  | destroyMapping process id =>
      obtain ⟨⟨result, last⟩, destroyed, ends⟩ := Run.yields_bind.mp yields
      cases ends
      exact destroyMapping_edits consistent destroyed
  | handleFault process fault =>
      obtain ⟨⟨resolved, last⟩, handled, ends⟩ := Run.yields_bind.mp yields
      cases ends
      exact .of_serves rfl ((handleFault_serves consistent process fault).of_yields handled)
        fun _ grows => ⟨rfl, grows⟩
  | resolveFault process fault =>
      obtain ⟨⟨result, last⟩, resolved, ends⟩ := Run.yields_bind.mp yields
      have serves := (resolveFault_serves consistent process fault).of_yields resolved
      cases result with
      | error cause | ok frame =>
          cases ends
          exact .of_serves rfl serves fun _ grows => ⟨rfl, grows⟩
  | installPage process address writable =>
      obtain ⟨⟨result, last⟩, installed, ends⟩ := Run.yields_bind.mp yields
      cases ends
      exact .of_serves rfl
        ((installPage_serves consistent process address writable).of_yields installed)
        fun _ place => ⟨rfl, place⟩
  | createMapping process file address length =>
      obtain ⟨⟨result, last⟩, created, ends⟩ := Run.yields_bind.mp yields
      cases ends
      exact .of_serves rfl
        ((createMapping_serves consistent process file address length).of_yields created)
        fun _ covers => ⟨rfl, covers⟩
  | mapSegment process segment =>
      obtain ⟨⟨result, last⟩, mapped, ends⟩ := Run.yields_bind.mp yields
      cases ends
      exact .of_serves rfl ((mapSegment_serves consistent process segment).of_yields mapped)
        fun _ covers => ⟨rfl, covers⟩
  | copyToUser process address data stackPointer =>
      obtain ⟨⟨outcome, last⟩, copied, ends⟩ := Run.yields_bind.mp yields
      cases ends
      exact .of_serves rfl
        ((copyToUser_serves consistent process address data stackPointer).of_yields copied)
        fun _ grows => ⟨rfl, grows⟩
  | copyFromUser process address buffer stackPointer =>
      obtain ⟨⟨outcome, filled, last⟩, copied, ends⟩ := Run.yields_bind.mp yields
      cases ends
      exact .of_serves rfl
        ((copyFromUser_serves consistent process address buffer stackPointer).of_yields copied)
        fun _ grows => ⟨rfl, grows⟩

/-- A state that operations lead to under which a page has its entry all the time. -/
inductive Lasts (page : UserPage) (vm : Vm arch) : Vm arch → Prop
  | start : Lasts page vm vm
  | step {middle after : Vm arch} {operation : Operation} {answer : Answer}
      (lasts : Lasts page vm middle) (yields : (middle.step operation).Yields (answer, after))
      (present : (after.entryAt page).isSome) : Lasts page vm after

theorem Lasts.kept (reachable : Reachable vm) {page : UserPage} {entry : PageEntry}
    (found : vm.entryAt page = some entry) {last : Vm arch} (lasts : Lasts page vm last) :
    Reachable last ∧ ∃ later, last.entryAt page = some later ∧
      later.writable = entry.writable ∧ later.mapping = entry.mapping := by
  induction lasts with
  | start => exact ⟨reachable, entry, found, rfl, rfl⟩
  | step _ yields present ih =>
      obtain ⟨reachable', between, found', writable, belongs⟩ := ih
      obtain ⟨later, found''⟩ := Option.isSome_iff_exists.mp present
      obtain ⟨writable', belongs'⟩ :=
        (reachable'.step_edits yields).kept page between later found' found''
      exact ⟨.step reachable' yields, later, found'', writable'.trans writable,
        belongs'.trans belongs⟩

/-- Entries are given by the operations that install or map their pages, or grow the stack there,
and taken by those that end their mapping or their process. While an entry lasts it keeps its
permission and its mapping, and an operation for another process at most takes its frame. -/
theorem Reachable.edits (reachable : Reachable vm) :
    (∀ operation answer after, (vm.step operation).Yields (answer, after) →
      Edits operation vm after) ∧
    ∀ page entry last, vm.entryAt page = some entry → Lasts page vm last →
      ∃ later, last.entryAt page = some later ∧
        later.writable = entry.writable ∧ later.mapping = entry.mapping :=
  ⟨fun _ _ _ => reachable.step_edits, fun _ _ _ found lasts => (lasts.kept reachable found).2⟩

/-- A copy that grows a stack moves a page of another process to swap. -/
theorem edits_stack_growth : ∃ (vm after : Vm .scaleModel) (answer : Answer) (entry : PageEntry),
    Reachable vm ∧
    (vm.step (.copyToUser ⟨2⟩ ⟨0xBFFFFFF0⟩ #[7] ⟨0xC0000000⟩)).Yields (answer, after) ∧
    vm.entryAt (⟨1⟩, ⟨1⟩) = some ⟨.frame ⟨16⟩, true, none⟩ ∧
    after.entryAt (⟨1⟩, ⟨1⟩) = some ⟨.swap ⟨0⟩, true, none⟩ ∧
    PageEntry.Cedes (vm.entryAt (⟨1⟩, ⟨1⟩)) (after.entryAt (⟨1⟩, ⟨1⟩)) ∧
    after.entryAt (⟨2⟩, ⟨0xBFFFF⟩) = some entry ∧
    vm.GrowsWithin ⟨0xBFFFFFF0⟩ 1 ⟨0xC0000000⟩ ⟨0xBFFFF⟩ := by
  have passes : (oneFrame.run? [.createProcess ⟨1⟩, .createProcess ⟨2⟩,
      .installPage ⟨1⟩ ⟨0x1000⟩ true]).any (fun vm =>
        vm.entryAt (⟨1⟩, ⟨1⟩) = some ⟨.frame ⟨16⟩, true, none⟩ &&
        vm.entryAt (⟨2⟩, ⟨0xBFFFF⟩) = none &&
        (vm.step (.copyToUser ⟨2⟩ ⟨0xBFFFFFF0⟩ #[7] ⟨0xC0000000⟩)).passes fun (_, after) =>
          after.entryAt (⟨1⟩, ⟨1⟩) = some ⟨.swap ⟨0⟩, true, none⟩ &&
          (after.entryAt (⟨2⟩, ⟨0xBFFFF⟩)).isSome) = true := by
    decide +kernel
  simp only [Option.any_eq_true _ _, Run.passes_iff, Bool.and_eq_true, decide_eq_true_iff,
    Prod.exists] at passes
  obtain ⟨vm, ran, ⟨resident, new⟩, answer, after, yields, swapped, grown⟩ := passes
  have reachable := (Reachable.boot oneFrame_booted).run ran
  obtain ⟨entry, found⟩ := Option.isSome_iff_exists.mp grown
  have edits := reachable.edits.1 _ answer after yields
  exact ⟨vm, after, answer, entry, reachable, yields, resident, swapped,
    edits.others (⟨1⟩, ⟨1⟩) (by decide), found, (edits.gained _ entry new found).2⟩

end Vm
end DemandPaging
