import DemandPaging.Proofs.Offsets
import DemandPaging.Proofs.Placement
import DemandPaging.Proofs.WriteBack

/-!
Which segments are mapped. The conditions on a segment stand in a list, in the order in which they
are checked. If they all hold, the pages of the segment gain entries under a number that was never
given out before, and nothing else changes; if not, nothing changes at all, and the error is that
of the first one that fails.
-/

namespace DemandPaging

variable {arch : Architecture}

/-- A condition on a request, and the errors that report that it fails. -/
structure Demand where
  holds : Prop
  refusal : VmError → Prop

/-- The error reports the first of the conditions that fails. -/
inductive FirstFailure : List Demand → VmError → Prop
  | here {demand : Demand} {rest : List Demand} {cause : VmError} (fails : ¬demand.holds)
      (reported : demand.refusal cause) : FirstFailure (demand :: rest) cause
  | later {demand : Demand} {rest : List Demand} {cause : VmError} (holds : demand.holds)
      (failure : FirstFailure rest cause) : FirstFailure (demand :: rest) cause

namespace FirstFailure

variable {demands more : List Demand} {cause : VmError}

theorem not_forall (failure : FirstFailure demands cause) :
    ¬∀ demand ∈ demands, demand.holds := by
  induction failure with
  | here fails _ => exact fun all => fails (all _ List.mem_cons_self)
  | later _ _ ih =>
      exact fun all => ih fun demand member => all demand (List.mem_cons_of_mem _ member)

theorem append (failure : FirstFailure demands cause) : FirstFailure (demands ++ more) cause := by
  induction failure with
  | here fails reported => exact .here fails reported
  | later holds _ ih => exact .later holds ih

theorem of_append (all : ∀ demand ∈ demands, demand.holds) (failure : FirstFailure more cause) :
    FirstFailure (demands ++ more) cause := by
  induction demands with
  | nil => exact failure
  | cons demand rest ih =>
      obtain ⟨holds, all⟩ := List.forall_mem_cons.mp all
      exact .later holds (ih all)

end FirstFailure

namespace Segment

def size (segment : Segment) : Nat :=
  segment.fileLength + segment.zeroLength

/-- The pages that the region reaches into, by their place from its start. -/
def nthPage (segment : Segment) (i : Nat) : PageNumber :=
  ⟨segment.address.page.value + i⟩

end Segment

theorem AddressSpace.firstUnavailable?_eq_some {space : AddressSpace arch} {base page : PageNumber}
    {count : Nat} (first : space.firstUnavailable? base count = some page) :
    ∃ i < count, page = ⟨base.value + i⟩ ∧ space.isAvailable page = false ∧
      ∀ j < i, space.isAvailable ⟨base.value + j⟩ = true := by
  induction count generalizing base with
  | zero => cases first
  | succ count ih =>
      unfold firstUnavailable? at first
      split at first
      · rename_i available
        obtain ⟨i, small, rfl, taken, before⟩ := ih first
        refine ⟨i + 1, by omega, Number.ext (by dsimp only; omega), taken, fun j smaller => ?_⟩
        cases j with
        | zero => exact available
        | succ j =>
            have later := before j (by omega)
            rwa [show base.value + 1 + j = base.value + (j + 1) by omega] at later
      · rename_i taken
        cases first
        exact ⟨0, Nat.succ_pos count, rfl, Bool.not_eq_true _ ▸ taken,
          fun j smaller => absurd smaller (Nat.not_lt_zero j)⟩

namespace Vm

variable {vm : Vm arch} {process : ProcessId} {segment : Segment}

/-- A page lies below the stacks and has no entry. -/
def Vacant (vm : Vm arch) (process : ProcessId) (page : PageNumber) : Prop :=
  page.value < vm.stack.bottomPage.value ∧ vm.entryAt (process, page) = none

/-- The conditions on a segment by itself. -/
def segmentDemands (arch : Architecture) (segment : Segment) : List Demand :=
  [{ holds := segment.address.value ≠ 0
     refusal := (· = .nullAddress) },
   { holds := segment.address.value % pageSize = 0
     refusal := (· = .misaligned segment.address) },
   { holds := segment.size < wordLimit ∧ 0 < segment.size
     refusal := (· = .invalidLength) },
   { holds := segment.address.value + segment.size < wordLimit ∧
       segment.address.value + segment.size ≤ arch.userLimit
     refusal := (· = .invalidLength) }]

/-- All conditions on the segment of a new mapping, in the order in which they are checked. -/
def mappingDemands (vm : Vm arch) (process : ProcessId) (segment : Segment) : List Demand :=
  segmentDemands arch segment ++
  [{ holds := process ∈ vm.spaces
     refusal := (· = .noSuchProcess process) },
   { holds := ∀ i < pagesFor segment.size, vm.Vacant process (segment.nthPage i)
     refusal := fun cause => ∃ i < pagesFor segment.size, cause = .overlap (segment.nthPage i) ∧
       ¬vm.Vacant process (segment.nthPage i) ∧
         ∀ j < i, vm.Vacant process (segment.nthPage j) }]

/-- The conditions on the first bytes of a file: they are those on the segment, but a file without
contents is not mapped at all. -/
def fileDemands (vm : Vm arch) (process : ProcessId) (file : FileId) (address : VirtualAddress)
    (length : Nat) : List Demand :=
  { holds := (vm.files.get file).file.size ≠ 0
    refusal := (· = .emptyFile) } ::
  vm.mappingDemands process (.wholeFile file (vm.files.get file).file.size address length)

/-- This number was the answer to an earlier operation. -/
def Issued (vm : Vm arch) (id : MappingId) : Prop :=
  ∃ (start : Vm arch) (operation : Operation) (next : Vm arch) (operations : List Operation),
    Reachable start ∧ (start.step operation).Yields (.mapping id, next) ∧
      next.run? operations = some vm

/-- The pages of the segment have gained entries, which say that they are in the file of the new
mapping; its number is new, and nothing else has changed. -/
structure Adds (vm : Vm arch) (process : ProcessId) (segment : Segment) (id : MappingId)
    (after : Vm arch) : Prop where
  fresh : ∀ issued, vm.Issued issued → issued.value < id.value
  only : ∃ space entries, vm.spaces[process]? = some space ∧
    after = { vm with
      spaces := vm.spaces.insert process { space with entries }
      mappings := {
        mappings := vm.mappings.mappings.insert id { id, owner := process, segment }
        lastId := id.value } } ∧
    (∀ i < pagesFor segment.size, space.entries[segment.nthPage i]? = none ∧
      entries[segment.nthPage i]? =
        some { backing := .file id, writable := segment.writable, mapping := some id }) ∧
    ∀ page, (∀ i < pagesFor segment.size, page ≠ segment.nthPage i) →
      entries[page]? = space.entries[page]?

/-- An operation creates the mapping of a segment if these conditions hold, and else fails for the
first one that does not. -/
def Creates (vm : Vm arch) (process : ProcessId) (segment : Segment) (demands : List Demand)
    (run : Run (Except VmError MappingId × Vm arch)) : Prop :=
  ∃ result after, run.Yields (result, after) ∧
    ((∃ id, result = .ok id) ↔ ∀ demand ∈ demands, demand.holds) ∧
    match result with
    | .ok id => vm.Adds process segment id after
    | .error cause => after = vm ∧ FirstFailure demands cause

theorem mappableLength_demands (arch : Architecture) (segment : Segment) :
    match mappableLength arch segment with
    | .ok length => length = segment.size ∧ ∀ demand ∈ segmentDemands arch segment, demand.holds
    | .error cause => FirstFailure (segmentDemands arch segment) cause := by
  unfold mappableLength
  by_cases null : segment.address.value = 0
  · rw [if_pos null]
    exact .here (fun nonzero => nonzero null) rfl
  rw [if_neg null]
  by_cases misaligned : segment.address.offset ≠ 0
  · rw [if_pos misaligned]
    exact .later null (.here misaligned rfl)
  rw [if_neg misaligned]
  have aligned : segment.address.value % pageSize = 0 := not_not.mp misaligned
  by_cases fits : segment.size < wordLimit
  · have length : segment.length? = some segment.size := if_pos fits
    rw [length]
    dsimp only
    by_cases room : 0 < segment.size ∧ segment.address.value + segment.size ≤ arch.userLimit
    · rw [if_pos room]
      have limit : arch.userLimit < wordLimit := by cases arch <;> decide
      have inside := Nat.lt_of_le_of_lt room.2 limit
      refine ⟨rfl, ?_⟩
      simp only [segmentDemands, List.forall_mem_cons, List.not_mem_nil, false_implies,
        implies_true, and_true]
      exact ⟨null, aligned, ⟨fits, room.1⟩, inside, room.2⟩
    · rw [if_neg room]
      refine .later null (.later aligned ?_)
      by_cases nonempty : 0 < segment.size
      · exact .later ⟨fits, nonempty⟩ (.here (fun inside => room ⟨nonempty, inside.2⟩) rfl)
      · exact .here (fun some_bytes => nonempty some_bytes.2) rfl
  · have length : segment.length? = none := if_neg fits
    rw [length]
    exact .later null (.later aligned (.here (fun small => fits small.1) rfl))

theorem vacant_iff (grounded : vm.toTenants.Grounded vm.stack.bottomPage)
    {space : AddressSpace arch} (found : vm.spaces[process]? = some space) (page : PageNumber) :
    vm.Vacant process page ↔ space.isAvailable page = true := by
  rw [AddressSpace.isAvailable_iff, grounded process space found]
  exact and_congr_right fun _ => by rw [Tenants.entryAt_of_space found]

theorem mappingAnswer_demands (grounded : vm.toTenants.Grounded vm.stack.bottomPage)
    (process : ProcessId) (segment : Segment) :
    match vm.mappingAnswer process segment with
    | .ok _ => ∀ demand ∈ vm.mappingDemands process segment, demand.holds
    | .error cause => FirstFailure (vm.mappingDemands process segment) cause := by
  have decided := mappableLength_demands arch segment
  unfold mappingAnswer mappingDemands
  cases accepted : mappableLength arch segment with
  | error cause =>
      rw [accepted] at decided
      exact FirstFailure.append decided
  | ok length =>
      rw [accepted] at decided
      obtain ⟨rfl, all⟩ := decided
      dsimp only
      cases found : vm.spaces[process]? with
      | none =>
          refine .of_append all (.here (fun member => ?_) rfl)
          rw [Std.ExtTreeMap.mem_iff_isSome_getElem?, found] at member
          cases member
      | some space =>
          have known : process ∈ vm.spaces := by
            rw [Std.ExtTreeMap.mem_iff_isSome_getElem?, found]
            rfl
          have vacant (i : Nat) := vacant_iff grounded found (segment.nthPage i)
          dsimp only
          cases first : space.firstUnavailable? segment.address.page (pagesFor segment.size) with
          | some page =>
              obtain ⟨i, small, rfl, taken, before⟩ := AddressSpace.firstUnavailable?_eq_some first
              have occupied : ¬vm.Vacant process (segment.nthPage i) := by
                rw [vacant, Segment.nthPage, taken]
                exact Bool.false_ne_true
              exact .of_append all (.later known (.here (fun free => occupied (free i small))
                ⟨i, small, rfl, occupied, fun j smaller => (vacant j).mpr (before j smaller)⟩))
          | none =>
              refine List.forall_mem_append.mpr ⟨all, ?_⟩
              simp only [List.forall_mem_cons, List.not_mem_nil, false_implies, implies_true,
                and_true]
              exact ⟨known, fun i small => (vacant i).mpr
                (AddressSpace.firstUnavailable?_eq_none first i small)⟩

theorem contains_upcoming_iff (vm : Vm arch) (process : ProcessId) {page : PageNumber} :
    (vm.mappings.upcoming process segment).contains page = true ↔
      ∃ i < pagesFor segment.size, page = segment.nthPage i := by
  rw [← Mapping.mem_pages]
  unfold Mapping.pages
  rw [List.mem_map]
  exact exists_congr fun i => and_congr List.mem_range eq_comm

theorem Issued.le_lastId {id : MappingId} (issued : vm.Issued id) :
    id.value ≤ vm.mappings.lastId := by
  obtain ⟨start, operation, next, operations, reachable, yields, ran⟩ := issued
  obtain ⟨mapping, rfl, _, layout⟩ := created_of_yields reachable.consistent yields
  have reachable' : Reachable next := .step reachable yields
  have live : next.layout.mapping mapping.id = some mapping := by
    rw [layout, Layout.extend_mapping, if_pos rfl]
  exact Nat.le_trans (reachable'.consistent.tenants.numbered _ _ live)
    (reachable'.follows_of_run ran).lastId_le

theorem Installs.adds {after : Vm arch}
    (installs : vm.Installs (vm.mappings.upcoming process segment) after) :
    vm.Adds process segment ⟨vm.mappings.lastId + 1⟩ after := by
  obtain ⟨space, installed, found, available, installing, rfl⟩ := installs.installs
  refine ⟨fun issued given => Nat.lt_succ_of_le given.le_lastId, space, installed.entries, found,
    ?_, fun i small => ?_, fun page apart => ?_⟩
  · obtain ⟨owner, stackBottom, entries, directory⟩ := installed
    obtain ⟨rfl, rfl, rfl, _, _, _⟩ := installing
    rfl
  · have inside := (contains_upcoming_iff vm process).mpr ⟨i, small, rfl⟩
    refine ⟨(AddressSpace.isAvailable_iff.mp (available _ inside)).2, ?_⟩
    rw [installing.entries, if_pos ⟨inside, List.not_mem_nil⟩]
    rfl
  · rw [installing.entries, if_neg]
    rintro ⟨inside, _⟩
    obtain ⟨i, small, rfl⟩ := (contains_upcoming_iff vm process).mp inside
    exact apart i small rfl

/-- A segment is mapped if the conditions on it hold. -/
theorem Reachable.mapSegment_creates (reachable : Reachable vm) (process : ProcessId)
    (segment : Segment) :
    vm.Creates process segment (vm.mappingDemands process segment)
      (vm.mapSegment process segment) := by
  have installs := mapSegment_installs reachable.consistent.next_unused process segment
  obtain ⟨⟨result, after⟩, yields⟩ := installs.exists_yields
  have outcome := installs.of_yields yields
  have answers := (mapSegment_answers process segment).of_yields yields
  have decided := mappingAnswer_demands reachable.grounded process segment
  rw [← answers] at decided
  refine ⟨result, after, yields, ?_⟩
  cases result with
  | error cause =>
      refine ⟨iff_of_false (by rintro ⟨_, ⟨⟩⟩) (FirstFailure.not_forall decided), outcome, decided⟩
  | ok id =>
      obtain ⟨rfl, installs⟩ := outcome
      exact ⟨iff_of_true ⟨_, rfl⟩ decided, installs.adds⟩

theorem Reachable.createMapping_creates (reachable : Reachable vm) (process : ProcessId)
    (file : FileId) (address : VirtualAddress) (length : Nat) :
    vm.Creates process (.wholeFile file (vm.files.get file).file.size address length)
      (vm.fileDemands process file address length)
      (vm.createMapping process file address length) := by
  unfold createMapping
  dsimp only
  split
  · rename_i empty
    have fails : FirstFailure (vm.fileDemands process file address length) .emptyFile :=
      .here (fun full => full empty) rfl
    exact ⟨_, vm, rfl, iff_of_false (by rintro ⟨_, ⟨⟩⟩) fails.not_forall, rfl, fails⟩
  · rename_i full
    obtain ⟨result, after, yields, accepted, outcome⟩ := reachable.mapSegment_creates process
      (.wholeFile file (vm.files.get file).file.size address length)
    refine ⟨result, after, yields, ?_, ?_⟩
    · rw [accepted, fileDemands, List.forall_mem_cons]
      exact (and_iff_right full).symm
    · cases result with
      | error cause => exact ⟨outcome.1, .later full outcome.2⟩
      | ok id => exact outcome

/-- A mapping is created exactly if the conditions on its segment hold, and then its pages and its
number are all that is new; the error that refuses one is that of the first condition that fails,
and leaves everything as it was. -/
theorem Reachable.mapping_exact (reachable : Reachable vm) :
    (∀ process segment, vm.Creates process segment (vm.mappingDemands process segment)
      (vm.mapSegment process segment)) ∧
    ∀ process file address length,
      vm.Creates process (.wholeFile file (vm.files.get file).file.size address length)
        (vm.fileDemands process file address length)
        (vm.createMapping process file address length) :=
  ⟨reachable.mapSegment_creates, reachable.createMapping_creates⟩

/-- The two pages from page three on are mapped. A mapping of five pages from page one on is
refused for page three, and one of two pages gets the second number. -/
theorem mapping_exact_of_overlap : ∃ vm : Vm .scaleModel, Reachable vm ∧
    (∃ after, (vm.createMapping ⟨1⟩ ⟨0⟩ ⟨0x1000⟩ 0x5000).Yields (.error (.overlap ⟨3⟩), after) ∧
      after = vm ∧
      FirstFailure (vm.fileDemands ⟨1⟩ ⟨0⟩ ⟨0x1000⟩ 0x5000) (.overlap ⟨3⟩)) ∧
    ∃ after, (vm.createMapping ⟨1⟩ ⟨0⟩ ⟨0x1000⟩ 0x2000).Yields (.ok ⟨2⟩, after) ∧
      (∀ demand ∈ vm.fileDemands ⟨1⟩ ⟨0⟩ ⟨0x1000⟩ 0x2000, demand.holds) ∧
      vm.Adds ⟨1⟩ (.wholeFile ⟨0⟩ (vm.files.get ⟨0⟩).file.size ⟨0x1000⟩ 0x2000) ⟨2⟩ after := by
  have mapped : (oneFrame.run? [.createProcess ⟨1⟩,
      .createMapping ⟨1⟩ ⟨0⟩ ⟨0x3000⟩ 5000]).any (fun vm =>
        (vm.createMapping ⟨1⟩ ⟨0⟩ ⟨0x1000⟩ 0x5000).passes (fun (result, _) =>
          result == .error (.overlap ⟨3⟩)) &&
        (vm.createMapping ⟨1⟩ ⟨0⟩ ⟨0x1000⟩ 0x2000).passes (fun (result, _) =>
          result == .ok ⟨2⟩)) = true := by
    decide +kernel
  obtain ⟨vm, ran, both⟩ := (Option.any_eq_true _ _).mp mapped
  have reachable := (Reachable.boot oneFrame_booted).run ran
  obtain ⟨_, creates⟩ := reachable.mapping_exact
  simp only [Bool.and_eq_true, Run.passes_iff, Prod.exists, beq_iff_eq] at both
  obtain ⟨⟨_, after, yields, rfl⟩, _, after', yields', rfl⟩ := both
  refine ⟨vm, reachable, ⟨after, ?_⟩, after', ?_⟩
  · obtain ⟨_, _, again, _, outcome⟩ := creates ⟨1⟩ ⟨0⟩ ⟨0x1000⟩ 0x5000
    cases yields.symm.trans again
    exact ⟨yields, outcome⟩
  · obtain ⟨_, _, again, conditions, outcome⟩ := creates ⟨1⟩ ⟨0⟩ ⟨0x1000⟩ 0x2000
    cases yields'.symm.trans again
    exact ⟨yields', conditions.mp ⟨_, rfl⟩, outcome⟩

end Vm
end DemandPaging
