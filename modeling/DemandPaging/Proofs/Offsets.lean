import DemandPaging.Proofs.Safety
import DemandPaging.Proofs.Unbroken

/-!
Where the pages of a mapping are in its file. A segment is accepted whatever its offset, so the
offsets of its last pages may not fit in a machine word. Such a page is never read, and stays in
the file; the operations that access it break a rule, and no others do: evictions and the end of
mappings and processes pass it by.
-/

namespace DemandPaging

variable {arch : Architecture} {tolerated : Violation → Prop}

/-- The offset of a page in the file does not fit in a machine word. -/
def Mapping.Misplaces (mapping : Mapping) (page : PageNumber) : Prop :=
  wordLimit ≤ mapping.segment.offset + (page.value - mapping.base.value) * pageSize

namespace Mapping

variable {mapping : Mapping} {page : PageNumber}

theorem Misplaces.fileRange (misplaced : mapping.Misplaces page)
    (inside : mapping.contains page = true) :
    mapping.fileRange page = .error (.overflow .add) := by
  unfold Misplaces at misplaced
  unfold Mapping.fileRange require Word.add
  rw [if_pos inside, Checked.ok_bind]
  dsimp only
  rw [if_neg (Nat.not_lt.mpr misplaced)]
  rfl

theorem fileRange_of_not_misplaces (placed : ¬mapping.Misplaces page)
    (inside : mapping.contains page = true) : ∃ range, mapping.fileRange page = .ok range := by
  cases found : mapping.fileRange page with
  | ok range => exact ⟨range, rfl⟩
  | error violation => exact absurd (wordLimit_le_of_fileRange found inside) placed

end Mapping

namespace Vm

variable {vm : Vm arch} {origin : FramePool arch}

/-- An operation accesses a page of a process: it reports a fault there, or copies bytes of it. -/
def Operation.Accesses (page : UserPage) : Operation → Prop
  | .handleFault process fault | .resolveFault process fault =>
    page = (process, fault.address.page)
  | .copyToUser process address data _ =>
    page.1 = process ∧ ∃ i, i < data.size ∧ page.2 = (⟨address.value + i⟩ : VirtualAddress).page
  | .copyFromUser process address buffer _ =>
    page.1 = process ∧ ∃ i, i < buffer.size ∧
      page.2 = (⟨address.value + i⟩ : VirtualAddress).page
  | _ => False

theorem Guarded.resolveFault_genuine (addressable : origin.Addressable tolerated)
    (guarded : vm.Guarded origin) {process : ProcessId} {fault : PageFault}
    (genuine : ∀ violation, (Operation.resolveFault process fault).Spurious vm violation →
      tolerated violation)
    (locates : vm.Locates tolerated (process, fault.address.page)) :
    (vm.resolveFault process fault).Satisfies tolerated fun _ => True := by
  cases user : fault.address.isUser arch with
  | false =>
      have refused : (vm.resolveFault process fault).Yields _ := resolveFault_of_kernel user
      unfold Run.Yields at refused
      unfold Run.Satisfies
      rw [refused]
      trivial
  | true =>
      refine .mono (guarded.resolveFault_satisfies addressable ?_ locates) fun _ _ => trivial
      exact fun entry found resident allowed =>
        genuine _ ⟨rfl, user, entry, found, resident, allowed⟩

theorem createMapping_unbroken (consistent : vm.Consistent fun _ => True) (process : ProcessId)
    (file : FileId) (address : VirtualAddress) (length : Nat) :
    (vm.createMapping process file address length).Satisfies tolerated fun _ => True := by
  unfold createMapping
  dsimp only
  split
  · exact .pure trivial
  · exact .mono ((mapSegment_installs consistent.next_unused process _).weaken
      fun _ => False.elim) fun _ _ => trivial

/-- An operation breaks no rule, if every page that it accesses can be located and no fault is
reported on a page that is there. -/
theorem Guarded.step_satisfies (addressable : origin.Addressable tolerated)
    (guarded : vm.Guarded origin) {operation : Operation}
    (genuine : ∀ violation, operation.Spurious vm violation → tolerated violation)
    (locates : ∀ page, operation.Accesses page → vm.Locates tolerated page) :
    (vm.step operation).Satisfies tolerated fun _ => True := by
  cases operation with
  | createProcess process =>
      have creates : (vm.createProcess process).Satisfies tolerated fun _ => True := by
        unfold createProcess
        split
        · exact .pure trivial
        · exact .bind .log fun _ _ => .pure trivial
      exact .bind creates fun _ _ => .pure trivial
  | exitProcess process =>
      exact .bind (guarded.exitProcess_satisfies (guarded.readable addressable) process)
        fun _ _ => .pure trivial
  | handleFault process fault =>
      have handles : (vm.handleFault process fault).Satisfies tolerated fun _ => True := by
        refine .bind (guarded.resolveFault_genuine addressable genuine (locates _ rfl)) ?_
        rintro ⟨result, after⟩ _
        cases result with
        | ok frame => exact .pure trivial
        | error cause => exact .bind .log fun _ _ => .pure trivial
      exact .bind handles fun _ _ => .pure trivial
  | resolveFault process fault =>
      refine .bind (guarded.resolveFault_genuine addressable genuine (locates _ rfl)) ?_
      rintro ⟨result, after⟩ _
      cases result with
      | ok frame => exact .pure trivial
      | error cause => exact .pure trivial
  | installPage process address writable =>
      exact .bind (guarded.installPage_satisfies addressable process address writable)
        fun _ _ => .pure trivial
  | createMapping process file address length =>
      exact .bind (createMapping_unbroken guarded.consistent process file address length)
        fun _ _ => .pure trivial
  | mapSegment process segment =>
      exact .bind ((mapSegment_installs guarded.consistent.next_unused process segment).weaken
        fun _ => False.elim) fun _ _ => .pure trivial
  | destroyMapping process id =>
      have destroys : (vm.destroyMapping process id).Satisfies tolerated fun _ => True := by
        unfold destroyMapping
        split
        · rename_i mine
          obtain ⟨mapping, live, _⟩ := (Option.any_eq_true _ _).mp mine
          exact .mono (guarded.removeMapping_satisfies (guarded.readable addressable) live)
            fun _ _ => trivial
        · exact .pure trivial
      exact .bind destroys fun _ _ => .pure trivial
  | copyToUser process address data stackPointer =>
      have copies : (vm.copyToUser process address data stackPointer).Satisfies tolerated
          fun _ => True := by
        unfold copyToUser
        split
        · refine .mono (guarded.writePieces_satisfies addressable (RangePiece.tiles_ofRange
            address data.size) fun piece member => locates _ ⟨rfl, ?_⟩) fun _ _ => trivial
          obtain ⟨i, inside, same⟩ := (RangePiece.opens_of_mem_ofRange member).2.1
          exact ⟨i, inside, congrArg Address.page same⟩
        · exact .pure trivial
      exact .bind copies fun _ _ => .pure trivial
  | copyFromUser process address buffer stackPointer =>
      have copies : (vm.copyFromUser process address buffer stackPointer).Satisfies tolerated
          fun _ => True := by
        unfold copyFromUser
        split
        · refine .mono (guarded.readPieces_satisfies addressable (RangePiece.tiles_ofRange
            address buffer.size) fun piece member => locates _ ⟨rfl, ?_⟩) fun _ _ => trivial
          obtain ⟨i, inside, same⟩ := (RangePiece.opens_of_mem_ofRange member).2.1
          exact ⟨i, inside, congrArg Address.page same⟩
        · exact .pure trivial
      exact .bind copies fun _ _ => .pure trivial
  | setFailingSectors | setTransferCaps | replaceFile => exact .pure trivial

/-- The answer to a segment: why it is refused, or the number of its mapping. -/
def mappingAnswer (vm : Vm arch) (process : ProcessId) (segment : Segment) :
    Except VmError MappingId :=
  match mappableLength arch segment with
  | .error cause => .error cause
  | .ok length =>
    match vm.spaces[process]? with
    | none => .error (.noSuchProcess process)
    | some space =>
      match space.firstUnavailable? segment.address.page (pagesFor length) with
      | some page => .error (.overlap page)
      | none => .ok (vm.mappings.upcoming process segment).id

theorem mapSegment_answers (process : ProcessId) (segment : Segment) :
    (vm.mapSegment process segment).Satisfies (fun _ => True) fun (result, _) =>
      result = vm.mappingAnswer process segment := by
  unfold mapSegment mappingAnswer
  cases mappableLength arch segment with
  | error cause => exact .pure rfl
  | ok length =>
      dsimp only
      cases vm.spaces[process]? with
      | none => exact .pure rfl
      | some space =>
          dsimp only
          cases space.firstUnavailable? segment.address.page (pagesFor length) with
          | some page => exact .pure rfl
          | none =>
              have numbers : (vm.mappings.next process segment).Satisfies (fun _ => True)
                  fun mapping => mapping = vm.mappings.upcoming process segment :=
                .bind .any fun _ _ => .bind .any fun _ _ => .pure rfl
              refine .bind (.lift numbers) ?_
              rintro _ rfl
              exact .bind .any fun _ _ => .bind .log fun _ _ => .bind .any fun _ _ => .pure rfl

/-- A page that is away from its file has an offset there. -/
theorem Consistent.not_misplaces (consistent : vm.Consistent fun _ => True)
    (regular : vm.layout.Regular) {page : UserPage} {entry : PageEntry} {id : MappingId}
    {mapping : Mapping} (found : vm.entryAt page = some entry) (belongs : entry.mapping = some id)
    (live : vm.mappings.get? id = some mapping) (misplaced : mapping.Misplaces page.2) :
    entry.backing = .file id := by
  have admits := consistent.layout_sound.admits page entry found
  obtain ⟨known, live', _, inside, _⟩ := admits.mapped id belongs
  cases live.symm.trans live'
  by_contra elsewhere
  have away : ∀ other, entry.backing ≠ .file other := by
    intro other source
    cases belongs.symm.trans (admits.filed other source)
    exact elsewhere source
  obtain ⟨known, range, live'', located⟩ := regular.locates page entry found away id belongs
  cases live.symm.trans live''
  rw [misplaced.fileRange inside] at located
  cases located

theorem Reachable.not_misplaces_of_resolved {after : Vm arch} (reachable : Reachable vm)
    {process : ProcessId} {fault : PageFault} {frame : FrameNumber}
    (yields : (vm.resolveFault process fault).Yields (.ok frame, after)) {entry : PageEntry}
    (found : vm.entryAt (process, fault.address.page) = some entry) {id : MappingId}
    (belongs : entry.mapping = some id) {mapping : Mapping}
    (live : vm.mappings.get? id = some mapping) : ¬mapping.Misplaces fault.address.page := by
  intro misplaced
  have stepped : (vm.step (.resolveFault process fault)).Yields (.frame frame, after) :=
    Run.yields_bind.mpr ⟨_, yields, rfl⟩
  have reachable' : Reachable after := .step reachable stepped
  obtain ⟨_, _, ⟨away, ⟨middle, path, arrival⟩, placed, found', resident, _⟩, _⟩ :=
    (resolveFault_satisfies reachable.consistent fun _ _ _ _ => trivial).of_yields yields
  have reach : Reach _ vm.layout after.layout := .brought middle frame _ path arrival away
  have role := reach.role (Option.isSome_iff_exists.mpr ⟨entry, found⟩)
  obtain ⟨present, again, _, belongs'⟩ := Layout.entry_of_role role found
  cases found'.symm.trans again
  have live' : after.mappings.get? id = some mapping := (congrFun reach.mapping id).trans live
  have filed := reachable'.consistent.not_misplaces reachable'.regular found'
    (belongs'.trans belongs) live' misplaced
  exact absurd (resident.symm.trans filed) (by simp)

theorem Consistent.mapSegment_yields (consistent : vm.Consistent tolerated) (process : ProcessId)
    (segment : Segment) :
    ∃ after, (vm.mapSegment process segment).Yields (vm.mappingAnswer process segment, after) ∧
      ∀ cause, vm.mappingAnswer process segment = .error cause → after = vm := by
  have installs := mapSegment_installs consistent.next_unused process segment
  obtain ⟨⟨result, after⟩, yields⟩ := installs.exists_yields
  have outcome := installs.of_yields yields
  obtain rfl := (mapSegment_answers process segment).of_yields yields
  refine ⟨after, yields, fun cause refused => ?_⟩
  rw [refused] at outcome
  exact outcome

/-- A segment is accepted or refused, then with nothing changed, whatever its offset. Of the pages
of a mapping just those are found in the file whose offset fits in a machine word; the others stay
there, and no fault on them is resolved. If frames can be reached, an operation that accesses none
of those breaks a rule only if it reports a fault that is none, so evictions and the ends of
mappings and processes break none. -/
theorem Reachable.offsets (reachable : Reachable vm) :
    (∀ process segment offset, ∃ result after other,
      (vm.mapSegment process segment).Yields (result, after) ∧
      (vm.mapSegment process { segment with offset }).Yields (result, other) ∧
      ∀ cause, result = .error cause → after = vm) ∧
    (∀ id mapping page, vm.mappings.get? id = some mapping → mapping.contains page = true →
      (mapping.Misplaces page → mapping.fileRange page = .error (.overflow .add)) ∧
      (¬mapping.Misplaces page → ∃ range, mapping.fileRange page = .ok range)) ∧
    (∀ page entry id mapping, vm.entryAt page = some entry → entry.mapping = some id →
      vm.mappings.get? id = some mapping → mapping.Misplaces page.2 →
      entry.backing = .file id ∧
        ∀ fault, fault.address.page = page.2 → ∀ frame after,
          ¬(vm.resolveFault page.1 fault).Yields (.ok frame, after)) ∧
    ((vm.frames.pool.Addressable fun _ => False) → ∀ operation violation,
      (vm.step operation).outcome = .error violation →
        operation.Spurious vm violation ∨ violation = .overflow .add ∧ ∃ page id mapping,
          operation.Accesses page ∧ vm.mappings.get? id = some mapping ∧ mapping.owner = page.1 ∧
          mapping.contains page.2 = true ∧ mapping.Misplaces page.2) := by
  have consistent := reachable.consistent
  refine ⟨?_, ?_, ?_, ?_⟩
  · intro process segment offset
    obtain ⟨after, yields, same⟩ := consistent.mapSegment_yields process segment
    obtain ⟨other, yields', _⟩ := consistent.mapSegment_yields process { segment with offset }
    exact ⟨_, after, other, yields, yields', same⟩
  · intro id mapping page live inside
    exact ⟨fun misplaced => misplaced.fileRange inside,
      fun placed => mapping.fileRange_of_not_misplaces placed inside⟩
  · intro page entry id mapping found belongs live misplaced
    refine ⟨consistent.not_misplaces reachable.regular found belongs live misplaced, ?_⟩
    rintro fault same frame after yields
    obtain ⟨process, number⟩ := page
    cases same
    exact reachable.not_misplaces_of_resolved yields found belongs live misplaced
  · intro addressable operation violation broken
    have guarded := reachable.guarded
    have satisfies : (vm.step operation).Satisfies (fun violation =>
        operation.Spurious vm violation ∨ violation = .overflow .add ∧ ∃ page id mapping,
          operation.Accesses page ∧ vm.mappings.get? id = some mapping ∧
          mapping.owner = page.1 ∧ mapping.contains page.2 = true ∧ mapping.Misplaces page.2)
        fun _ => True := by
      refine guarded.step_satisfies ?_ (fun violation => .inl) ?_
      · exact fun frame inside => ⟨fun violation failed =>
          ((addressable frame inside).1 violation failed).elim,
          fun violation failed => ((addressable frame inside).2 violation failed).elim⟩
      · intro page accesses id mapping live owner inside violation failed
        have misplaced : mapping.Misplaces page.2 :=
          Mapping.wordLimit_le_of_fileRange failed inside
        cases (misplaced.fileRange inside).symm.trans failed
        exact .inr ⟨rfl, page, id, mapping, accesses, live, owner, inside, misplaced⟩
    exact satisfies.of_violation broken

def lastOffset : Segment where
  file := ⟨0⟩
  address := ⟨0x1000⟩
  offset := wordLimit - pageSize
  fileLength := 2 * pageSize
  zeroLength := 0

/-- The segment is mapped and its first page can be read, but reading the second page breaks a
rule. -/
theorem overflow_after_mapping : ∃ (vm mapped read : Vm .scaleModel) (outcome : CopyOutcome)
    (filled : Bytes), Reachable vm ∧
      (vm.step (.mapSegment ⟨1⟩ lastOffset)).Yields (.mapping ⟨1⟩, mapped) ∧
      (mapped.copyFromUser ⟨1⟩ ⟨0x1000⟩ #[1] ⟨0⟩).Yields (outcome, filled, read) ∧
      outcome.copied = 1 ∧
      (read.copyFromUser ⟨1⟩ ⟨0x2000⟩ #[1] ⟨0⟩).outcome = .error (.overflow .add) := by
  have passes : (oneFrame.step (.createProcess ⟨1⟩)).passes (fun (_, vm) =>
      (vm.mapSegment ⟨1⟩ lastOffset).passes fun (result, mapped) =>
        result.toOption == some ⟨1⟩ &&
        (mapped.copyFromUser ⟨1⟩ ⟨0x1000⟩ #[1] ⟨0⟩).passes fun (outcome, _, read) =>
          decide (outcome.copied = 1) &&
          (read.copyFromUser ⟨1⟩ ⟨0x2000⟩ #[1] ⟨0⟩).breaks (.overflow .add)) = true := by
    decide +kernel
  simp only [Run.passes_iff, Run.breaks_iff, Bool.and_eq_true, Prod.exists, beq_iff_eq,
    decide_eq_true_eq] at passes
  obtain ⟨_, vm, start, result, mapped, accepted, named, outcome, filled, read, copied, one,
    broken⟩ := passes
  refine ⟨vm, mapped, read, outcome, filled, .step (.boot oneFrame_booted) start, ?_, copied, one,
    broken⟩
  cases result with
  | error cause => cases named
  | ok id =>
      cases named
      exact Run.yields_bind.mpr ⟨_, accepted, rfl⟩

/-- Of such a segment the second page stays in the file, and the process can still end. -/
theorem offsets_lastOffset : ∃ (vm : Vm .scaleModel) (entry : PageEntry), Reachable vm ∧
    (vm.frames.pool.Addressable fun _ => False) ∧
    vm.entryAt (⟨1⟩, ⟨2⟩) = some entry ∧ entry.backing = .file ⟨1⟩ ∧
    ∀ violation, (vm.step (.exitProcess ⟨1⟩)).outcome ≠ .error violation := by
  have passes : (oneFrame.run? [.createProcess ⟨1⟩, .mapSegment ⟨1⟩ lastOffset,
      .copyFromUser ⟨1⟩ ⟨0x1000⟩ #[1] ⟨0⟩]).any (fun vm =>
        decide (vm.frames.extent = oneFrame.frames.extent) &&
        decide (vm.mappings.get? ⟨1⟩ = some ⟨⟨1⟩, ⟨1⟩, lastOffset⟩) &&
        (vm.entryAt (⟨1⟩, ⟨2⟩)).any fun entry => entry.mapping == some ⟨1⟩) = true := by
    decide +kernel
  simp only [Option.any_eq_true _ _, Bool.and_eq_true, beq_iff_eq, decide_eq_true_eq] at passes
  obtain ⟨vm, ran, ⟨extent, live⟩, entry, found, belongs⟩ := passes
  have reachable : Reachable vm := (Reachable.boot oneFrame_booted).run ran
  have addressable : vm.frames.pool.Addressable fun _ => False :=
    (oneFrame_addressable _).congr extent
  obtain ⟨_, _, stays, breaks⟩ := reachable.offsets
  have misplaced : (⟨⟨1⟩, ⟨1⟩, lastOffset⟩ : Mapping).Misplaces ⟨2⟩ := by
    unfold Mapping.Misplaces
    decide
  refine ⟨vm, entry, reachable, addressable, found,
    (stays _ entry _ _ found belongs live misplaced).1, ?_⟩
  intro violation broken
  obtain spurious | ⟨_, page, id, mapping, accesses, _⟩ := breaks addressable _ violation broken
  · exact spurious.elim
  · exact accesses.elim

end Vm
end DemandPaging
