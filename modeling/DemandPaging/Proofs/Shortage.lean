import DemandPaging.Proofs.Offsets
import DemandPaging.Proofs.Persistence
import DemandPaging.Proofs.Search

/-!
When a frame is not to be had. A frame is refused exactly if none is free and no page can be
moved out of its own, whatever the accessed bits are; what cannot be moved then cannot be moved
afterwards. That there are no frames at all is the answer only where there are none.
-/

namespace DemandPaging

variable {arch : Architecture}

namespace Tenants

variable {tenants : Tenants arch} {ownerOf : FrameNumber → Option UserPage}

theorem Consistent.agrees_cleared (consistent : tenants.Consistent (fun _ => True) ownerOf)
    (owner : UserPage) :
    tenants.Agrees (tenants.testAndClearAccessed owner.1 owner.2).2 := by
  obtain ⟨_, _, layout, _⟩ := testAndClearAccessed_spec consistent owner
  have same := layout fun _ => Page.zero
  have swap : (tenants.testAndClearAccessed owner.1 owner.2).2.swap = tenants.swap := by
    unfold testAndClearAccessed
    split <;> rfl
  refine ⟨congrArg Layout.entry same, congrArg Layout.dirty same, congrArg Layout.mapping same,
    fun file => ?_, by rw [swap]⟩
  exact congrArg (fun files : FileStore => (files.get file).Takes) (congrArg Layout.files same)

variable {table : FrameTable arch}

/-- What is known of the tenants while a victim is searched for. -/
def Searched (table : FrameTable arch) (start tenants : Tenants arch) : Prop :=
  (tenants.Consistent (fun _ => True) table.ownerOf ∧ Relation.ReflTransGen Shift
    (start.layout table.pool.page) (tenants.layout table.pool.page)) ∧ start.Agrees tenants

theorem Searched.decides {start : Tenants arch} (searched : Searched table start tenants)
    (regular : (start.layout table.pool.page).Regular) {frame : FrameNumber} {page : UserPage}
    (owned : table.ownerOf frame = some page) (written : Page) :
    (tenants.evict page.1 page.2 written).Satisfies (fun _ => True) (tenants.Decides page) :=
  evict_decides searched.1.1 (regular.moves searched.1.2) owned written

/-- The tenants answer a search with what decides left as it was. A search for a page that cannot
be moved, if there is none other, vacates no frame. -/
theorem owners_decide (ring : List FrameNumber) {start : Tenants arch}
    (regular : (start.layout table.pool.page).Regular) (cleared : FrameNumber → Prop)
    (moved : ∀ frame page, table.ownerOf frame = some page → start.Persistable page →
      cleared frame)
    (unowned : ∀ frame, table.ownerOf frame = none → cleared frame) :
    (owners : FrameOwners (Tenants arch)).Answers (fun _ => True) table.ownerOf table.pool.page ring
      (Searched table start) (fun frame _ => cleared frame)
      (fun tenants => ring.countP fun frame => (table.ownerOf frame).any tenants.accessedAt) := by
  refine (owners_answer (fun _ => True) table ring (start.layout table.pool.page)).and ?_ ?_
    fun frame _ free => unowned frame free
  · intro frame owner tenants _ _ ⟨consistent, _⟩ agrees
    exact agrees.trans (consistent.agrees_cleared owner)
  · intro frame owner tenants _ owned ⟨consistent, path⟩ agrees
    refine .mono (evict_decides consistent (regular.moves path) owned (table.pool.page frame)) ?_
    rintro ⟨result, after⟩ ⟨done, same⟩
    cases result with
    | ok _ => exact moved frame owner owned (agrees.persistable_iff.mp (done.mp rfl))
    | error cause => exact agrees.trans (same rfl).1

theorem owners_give (ring : List FrameNumber) {start : Tenants arch}
    (regular : (start.layout table.pool.page).Regular)
    {goal : FrameNumber} {page : UserPage} (owned : table.ownerOf goal = some page)
    (persistable : start.Persistable page) :
    (owners : FrameOwners (Tenants arch)).Gives table.ownerOf table.pool.page ring
      (Searched table start) goal (fun tenants => tenants.accessedAt page) := by
  refine ⟨?_, ?_, ?_, ?_⟩
  · intro frame owner tenants _ named searched pending
    obtain ⟨_, _, _, cleared⟩ := testAndClearAccessed_spec searched.1.1 owner
    change (tenants.testAndClearAccessed owner.1 owner.2).2.accessedAt page = true at pending
    rw [cleared] at pending
    split at pending
    · cases pending
    · rename_i differs
      refine ⟨?_, pending⟩
      rintro rfl
      exact differs (Option.some.inj (owned.symm.trans named))
  · intro owner tenants named searched again
    cases owned.symm.trans named
    obtain ⟨accessed, _⟩ := testAndClearAccessed_spec searched.1.1 page
    exact accessed.symm.trans again
  · intro frame owner tenants _ named searched
    refine .mono (searched.decides regular named (table.pool.page frame)) ?_
    rintro ⟨result, after⟩ ⟨_, same⟩ refused pending
    rwa [(same refused).2] at pending
  · intro owner tenants named searched
    cases owned.symm.trans named
    refine .mono (searched.decides regular owned (table.pool.page goal)) ?_
    rintro ⟨result, after⟩ ⟨done, _⟩
    exact done.mpr (persistable.agrees searched.2)

end Tenants

namespace Vm

variable {vm after : Vm arch} {process : ProcessId}

/-- Without a frame in the ring and without a free one, there are no frames. -/
theorem Consistent.total_of_frameless (consistent : vm.Consistent fun _ => True)
    (frameless : vm.Frameless) : vm.frames.total = 0 := by
  obtain ⟨free, stopped⟩ := frameless
  obtain ⟨ring, wellFormed, settled⟩ := consistent.frames
  have resident := wellFormed.length_eq_resident settled
  rw [wellFormed.isRing.stopped stopped, List.length_nil] at resident
  have counted := wellFormed.counted
  unfold FrameTable.free at counted
  rw [free, ← resident] at counted
  exact counted.symm

theorem Consistent.owned_of_persistable (consistent : vm.Consistent fun _ => True)
    {page : UserPage} (persistable : vm.toTenants.Persistable page) :
    ∃ frame, vm.frames.ownerOf frame = some page := by
  obtain ⟨entry, found, resident⟩ := persistable.resident
  obtain ⟨frame, source⟩ := Option.isSome_iff_exists.mp resident
  exact ⟨frame, (consistent.tenants.owners frame page).mpr
    ⟨entry, found, PageEntry.frame?_eq_some.mp source⟩⟩

theorem Consistent.searched (consistent : vm.Consistent fun _ => True) :
    Tenants.Searched vm.frames vm.toTenants vm.toTenants :=
  ⟨⟨consistent.tenants, .refl⟩, .refl _⟩

theorem Consistent.acquire_agrees (consistent : vm.Consistent fun _ => True)
    (regular : vm.layout.Regular) {request : FrameRequest} (optional : request.required = false)
    (process : ProcessId) (page : PageNumber) :
    (vm.frames.acquire Tenants.owners vm.toTenants request process page).Satisfies
      (fun _ => True) fun (result, _, tenants) =>
        result.isOk = false → vm.toTenants.Agrees tenants := by
  obtain ⟨ring, wellFormed, settled⟩ := consistent.frames
  have answers := Tenants.owners_decide ring regular
    (fun _ => True) (fun _ _ _ _ => trivial) fun _ _ => trivial
  refine .mono (FrameTable.acquire_satisfies wellFormed answers settled consistent.searched
    optional process page) ?_
  rintro ⟨result, frames, tenants⟩ outcome refused
  cases result with
  | ok frame => cases refused
  | error cause => exact outcome.2.2.2.2

theorem Consistent.acquire_isOk (consistent : vm.Consistent fun _ => True)
    (regular : vm.layout.Regular) (request : FrameRequest) (process : ProcessId)
    (page : PageNumber) :
    (vm.frames.acquire Tenants.owners vm.toTenants request process page).Satisfies
      (fun _ => True) fun (result, _) => result.isOk = false ↔
        vm.frames.pool.free = [] ∧ ∀ other, ¬vm.toTenants.Persistable other := by
  obtain ⟨ring, wellFormed, settled⟩ := consistent.frames
  have obtains : ∀ result : Except VmError FrameNumber, result.isOk = true →
      ¬(vm.frames.pool.free = [] ∧ ∀ other, ¬vm.toTenants.Persistable other) →
        (result.isOk = false ↔
          vm.frames.pool.free = [] ∧ ∀ other, ¬vm.toTenants.Persistable other) := by
    intro result done some_way
    exact iff_of_false (by rw [done]; decide) some_way
  by_cases full : vm.frames.pool.free = []
  · by_cases stuck : ∀ other, ¬vm.toTenants.Persistable other
    · have refuses := Tenants.owners_decide ring regular
        (fun frame => vm.frames.ownerOf frame = none)
        (fun _ page _ persistable => absurd persistable (stuck page)) fun _ free => free
      refine .mono (FrameTable.acquire_fails wellFormed refuses full consistent.searched request
        process page) ?_
      rintro ⟨result, _⟩ refused
      exact iff_of_true refused ⟨full, stuck⟩
    · obtain ⟨other, persistable⟩ := not_forall_not.mp stuck
      obtain ⟨goal, owned⟩ := consistent.owned_of_persistable persistable
      have goes := settled goal (FrameTable.mem_of_ownerOf owned)
      have answers := Tenants.owners_decide ring regular
        (fun _ => True) (fun _ _ _ _ => trivial) fun _ _ => trivial
      refine .mono (FrameTable.acquire_gives wellFormed goes answers
        (Tenants.owners_give ring regular owned persistable) consistent.searched request process
        page) ?_
      rintro ⟨result, _⟩ done
      exact obtains result done fun both => stuck both.2
  · refine .mono (FrameTable.acquire_of_free full request process page) ?_
    rintro ⟨result, _⟩ done
    exact obtains result done fun both => full both.1

/-- A frame is refused exactly if none is free and no page can be moved; a refusal leaves it at
that. -/
theorem acquireFrame_decides (consistent : vm.Consistent fun _ => True)
    (regular : vm.layout.Regular) {request : FrameRequest} (optional : request.required = false)
    (process : ProcessId) (page : PageNumber) :
    (vm.acquireFrame request process page).Satisfies (fun _ => True) fun (result, after) =>
      (result.isOk = false ↔
        vm.frames.pool.free = [] ∧ ∀ other, ¬vm.toTenants.Persistable other) ∧
      (result.isOk = false → vm.toTenants.Agrees after.toTenants) := by
  unfold acquireFrame
  refine .bind ((consistent.acquire_isOk regular request process page).and
    (consistent.acquire_agrees regular optional process page)) ?_
  rintro ⟨result, frames, tenants⟩ outcome
  exact .pure outcome

theorem classify_refuses {fault : PageFault} {cause : FaultError}
    (refused : vm.classify process fault = .ok (.error cause)) : ¬cause.IsShortage := by
  obtain ⟨rfl, _⟩ | ⟨rfl, _⟩ | ⟨rfl, _⟩ | rfl | rfl := classify_error refused <;> exact id

theorem resolveFault_outOfFrames {fault : PageFault}
    (yields : (vm.resolveFault process fault).Yields (.error .outOfFrames, after)) :
    vm.Frameless := by
  obtain refused | ⟨_, frameless⟩ :=
    (vm.resolveFault_refuses process fault).of_yields yields .outOfFrames rfl
  · exact absurd trivial (classify_refuses refused)
  · exact frameless rfl

end Vm

/-- An error says that there are no frames. -/
@[simp]
def VmError.LacksFrames (cause : VmError) : Prop :=
  cause = .outOfFrames ∨ cause = .fault .outOfFrames

namespace Vm

/-- An answer says that there are no frames. -/
def Answer.LacksFrames : Answer → Prop
  | .faultError cause => cause = .outOfFrames
  | .error cause => cause.LacksFrames
  | .stored outcome | .fetched outcome _ =>
    ∃ cause, outcome.result = .error cause ∧ cause.LacksFrames
  | _ => False

/-- An error says that there are no frames only if there are none. -/
def Honest (vm : Vm arch) (cause : VmError) : Prop :=
  cause.LacksFrames → vm.Frameless

variable {vm after : Vm arch} {process : ProcessId}

theorem honest_of_not_lacksFrames {cause : VmError} (other : ¬cause.LacksFrames) :
    vm.Honest cause :=
  fun lacks => absurd lacks other

theorem Wants.honest {cause : VmError} (wants : vm.Wants cause) : vm.Honest cause := by
  obtain failure | ⟨_, frameless⟩ := wants
  · exact honest_of_not_lacksFrames (by rintro (rfl | rfl) <;> exact failure.elim)
  · exact fun _ => frameless

theorem userFrame_honest {address : VirtualAddress} {write : Bool}
    {stackPointer : VirtualAddress} :
    (vm.userFrame process address write stackPointer).Satisfies (fun _ => True)
      fun (result, _) => FailsFor vm.Honest result := by
  unfold userFrame
  split
  · exact .pure (failsFor_error (honest_of_not_lacksFrames (by simp)))
  · split
    · exact .pure (failsFor_ok _)
    · refine .bind (Run.Satisfies.any.yielding) ?_
      rintro ⟨result, faulted⟩ ⟨yields, _⟩
      cases result with
      | error cause =>
          refine .pure (failsFor_error ?_)
          rintro (⟨⟨⟩⟩ | ⟨⟨⟩⟩)
          exact resolveFault_outOfFrames yields
      | ok frame =>
          dsimp only
          split
          · exact .pure (failsFor_ok _)
          · exact .pure (failsFor_error (honest_of_not_lacksFrames (by simp)))

theorem storePiece_honest {piece : RangePiece} {source : Bytes} {stackPointer : VirtualAddress} :
    (vm.storePiece process piece source stackPointer).Satisfies (fun _ => True)
      fun (result, _) => FailsFor vm.Honest result := by
  refine .bind userFrame_honest ?_
  rintro ⟨result, used⟩ honest
  cases result with
  | error cause => exact .pure (failsFor_error (honest cause rfl))
  | ok frame => exact .bind (.lift .any) fun _ _ => .pure (failsFor_ok _)

theorem fetchPiece_honest {piece : RangePiece} {stackPointer : VirtualAddress} :
    (vm.fetchPiece process piece stackPointer).Satisfies (fun _ => True)
      fun (result, _) => FailsFor vm.Honest result := by
  refine .bind userFrame_honest ?_
  rintro ⟨result, used⟩ honest
  cases result with
  | error cause => exact .pure (failsFor_error (honest cause rfl))
  | ok frame => exact .bind (.lift .any) fun _ _ => .pure (failsFor_ok _)

theorem installPage_honest {address : VirtualAddress} {writable : Bool} :
    (vm.installPage process address writable).Satisfies (fun _ => True)
      fun (result, _) => FailsFor vm.Honest result := by
  unfold installPage
  split
  · exact .pure (failsFor_error (honest_of_not_lacksFrames (by simp)))
  · dsimp only
    split
    · exact .pure (failsFor_error (honest_of_not_lacksFrames (by simp)))
    · split
      · exact .pure (failsFor_error (honest_of_not_lacksFrames (by simp)))
      · refine .bind (vm.acquireFrame_failsFor process { zeroed := true } address.page) ?_
        rintro ⟨acquired, held⟩ wants
        cases acquired with
        | error cause => exact .pure (failsFor_error (wants cause rfl).honest)
        | ok frame =>
            dsimp only
            split
            · trivial
            · exact .bind (.lift .any) fun _ _ => .bind (.lift .any) fun _ _ =>
                .bind (.lift .any) fun _ _ => .pure (failsFor_ok _)

theorem mapSegment_honest {segment : Segment} :
    (vm.mapSegment process segment).Satisfies (fun _ => True)
      fun (result, _) => FailsFor vm.Honest result := by
  refine .mono (mapSegment_answers process segment) ?_
  rintro ⟨_, after⟩ rfl cause refused
  unfold mappingAnswer mappableLength at refused
  exact honest_of_not_lacksFrames (by unfold VmError.LacksFrames; grind)

theorem createMapping_honest {file : FileId} {address : VirtualAddress} {length : Nat} :
    (vm.createMapping process file address length).Satisfies (fun _ => True)
      fun (result, _) => FailsFor vm.Honest result := by
  unfold createMapping
  dsimp only
  split
  · exact .pure (failsFor_error (honest_of_not_lacksFrames (by simp)))
  · exact mapSegment_honest

theorem removeMapping_honest {id : MappingId} :
    (vm.removeMapping id).Satisfies (fun _ => True)
      fun (result, _) => FailsFor (fun cause => cause = .noSuchMapping id) result := by
  unfold removeMapping
  split
  · exact .pure (failsFor_error rfl)
  · split
    · trivial
    · exact .bind .any fun _ _ => .bind .log fun _ _ => .pure (failsFor_ok _)

theorem removeMappings_honest {ids : List MappingId} :
    (vm.removeMappings ids).Satisfies (fun _ => True) fun (result, _) =>
      FailsFor (fun cause => ∃ id, cause = .noSuchMapping id) result := by
  induction ids generalizing vm with
  | nil => exact .pure (failsFor_ok _)
  | cons id rest ih =>
      refine .bind removeMapping_honest ?_
      rintro ⟨result, after⟩ failed
      cases result with
      | error cause => exact .pure (failsFor_error ⟨id, failed cause rfl⟩)
      | ok _ => exact ih

theorem destroyMapping_honest {id : MappingId} :
    (vm.destroyMapping process id).Satisfies (fun _ => True)
      fun (result, _) => FailsFor vm.Honest result := by
  unfold destroyMapping
  split
  · refine .mono removeMapping_honest ?_
    rintro ⟨result, after⟩ failed cause refused
    rw [failed cause refused]
    exact honest_of_not_lacksFrames (by simp)
  · exact .pure (failsFor_error (honest_of_not_lacksFrames (by simp)))

theorem exitProcess_honest :
    (vm.exitProcess process).Satisfies (fun _ => True)
      fun (result, _) => FailsFor vm.Honest result := by
  unfold exitProcess
  split
  · exact .pure (failsFor_error (honest_of_not_lacksFrames (by simp)))
  · refine .bind removeMappings_honest ?_
    rintro ⟨result, after⟩ failed
    cases result with
    | error cause =>
        obtain ⟨id, rfl⟩ := failed cause rfl
        exact .pure (failsFor_error (honest_of_not_lacksFrames (by simp)))
    | ok _ =>
        dsimp only
        split
        · exact .pure (failsFor_error (honest_of_not_lacksFrames (by simp)))
        · exact .bind (.lift .any) fun _ _ => .bind .log fun _ _ => .pure (failsFor_ok _)

theorem Guarded.total_of_frameless {origin : FramePool arch} (guarded : vm.Guarded origin)
    (frameless : vm.Frameless) : origin.total = 0 := by
  have none := guarded.consistent.total_of_frameless frameless
  have extent := congrArg (fun extent => extent.2.1) guarded.extent
  exact extent.symm.trans none

theorem copyToUser_lacksFrames (guarded : vm.Guarded vm.frames.pool) {address : VirtualAddress}
    {data : Bytes} {stackPointer : VirtualAddress} :
    (vm.copyToUser process address data stackPointer).Satisfies (fun _ => True)
      fun (outcome, _) => ∀ cause, outcome.result = .error cause → cause.LacksFrames →
        vm.frames.total = 0 := by
  unfold copyToUser
  split
  · refine .mono (guarded.writePieces_satisfies (fun _ _ => ⟨fun _ _ => trivial, fun _ _ =>
      trivial⟩) (RangePiece.tiles_ofRange address data.size)
        fun _ _ _ _ _ _ _ _ _ => trivial) ?_
    rintro ⟨outcome, after⟩ refused cause failed lacks
    obtain ⟨moved, last, piece, source, guarded', yields⟩ := refused cause failed
    exact guarded'.total_of_frameless
      (storePiece_honest.of_yields yields cause rfl lacks)
  · refine .pure ?_
    rintro _ ⟨⟩ (⟨⟨⟩⟩ | ⟨⟨⟩⟩)

theorem copyFromUser_lacksFrames (guarded : vm.Guarded vm.frames.pool) {address : VirtualAddress}
    {buffer : Bytes} {stackPointer : VirtualAddress} :
    (vm.copyFromUser process address buffer stackPointer).Satisfies (fun _ => True)
      fun (outcome, _, _) => ∀ cause, outcome.result = .error cause → cause.LacksFrames →
        vm.frames.total = 0 := by
  unfold copyFromUser
  split
  · refine .mono (guarded.readPieces_satisfies (fun _ _ => ⟨fun _ _ => trivial, fun _ _ =>
      trivial⟩) (RangePiece.tiles_ofRange address buffer.size)
        fun _ _ _ _ _ _ _ _ _ => trivial) ?_
    rintro ⟨outcome, filled, after⟩ refused cause failed lacks
    obtain ⟨moved, last, piece, guarded', yields⟩ := refused cause failed
    exact guarded'.total_of_frameless
      (fetchPiece_honest.of_yields yields cause rfl lacks)
  · refine .pure ?_
    rintro _ ⟨⟩ (⟨⟨⟩⟩ | ⟨⟨⟩⟩)

theorem Reachable.total_of_lacksFrames (reachable : Reachable vm) {operation : Operation}
    {answer : Answer} (yields : (vm.step operation).Yields (answer, after))
    (lacks : answer.LacksFrames) : vm.frames.total = 0 := by
  have guarded := reachable.guarded
  have ofResult : ∀ {α : Type} (make : α → Answer) (result : Except VmError α),
      (∀ value, ¬(make value).LacksFrames) → FailsFor vm.Honest result →
        (Answer.ofResult make result).LacksFrames → vm.frames.total = 0 := by
    intro α make result quiet honest lacks
    cases result with
    | ok value => exact absurd lacks (quiet value)
    | error cause => exact guarded.total_of_frameless (honest cause rfl lacks)
  cases operation with
  | createProcess process =>
      obtain ⟨⟨result, _⟩, creates, rest⟩ := Run.yields_bind.mp yields
      cases rest
      refine ofResult _ result (fun _ => id) ?_ lacks
      unfold createProcess at creates
      split at creates
      · cases creates
        exact failsFor_error (honest_of_not_lacksFrames (by simp))
      · obtain ⟨_, _, creates⟩ := Run.yields_bind.mp creates
        cases creates
        exact failsFor_ok _
  | exitProcess process =>
      obtain ⟨⟨result, _⟩, exits, rest⟩ := Run.yields_bind.mp yields
      cases rest
      exact ofResult _ result (fun _ => id) (exitProcess_honest.of_yields exits) lacks
  | handleFault process fault =>
      obtain ⟨⟨resolved, _⟩, _, rest⟩ := Run.yields_bind.mp yields
      cases rest
      exact lacks.elim
  | resolveFault process fault =>
      obtain ⟨⟨result, _⟩, resolves, rest⟩ := Run.yields_bind.mp yields
      cases result with
      | ok frame =>
          cases rest
          exact lacks.elim
      | error cause =>
          cases rest
          cases lacks
          exact guarded.total_of_frameless (resolveFault_outOfFrames resolves)
  | installPage process address writable =>
      obtain ⟨⟨result, _⟩, installs, rest⟩ := Run.yields_bind.mp yields
      cases rest
      exact ofResult _ result (fun _ => id) (installPage_honest.of_yields installs) lacks
  | createMapping process file address length =>
      obtain ⟨⟨result, _⟩, maps, rest⟩ := Run.yields_bind.mp yields
      cases rest
      exact ofResult _ result (fun _ => id) (createMapping_honest.of_yields maps) lacks
  | mapSegment process segment =>
      obtain ⟨⟨result, _⟩, maps, rest⟩ := Run.yields_bind.mp yields
      cases rest
      exact ofResult _ result (fun _ => id) (mapSegment_honest.of_yields maps) lacks
  | destroyMapping process mapping =>
      obtain ⟨⟨result, _⟩, destroys, rest⟩ := Run.yields_bind.mp yields
      cases rest
      exact ofResult _ result (fun _ => id) (destroyMapping_honest.of_yields destroys) lacks
  | copyToUser process address data stackPointer =>
      obtain ⟨⟨outcome, _⟩, copies, rest⟩ := Run.yields_bind.mp yields
      cases rest
      obtain ⟨cause, failed, lacks⟩ := lacks
      exact (copyToUser_lacksFrames guarded).of_yields copies cause failed lacks
  | copyFromUser process address buffer stackPointer =>
      obtain ⟨⟨outcome, filled, _⟩, copies, rest⟩ := Run.yields_bind.mp yields
      cases rest
      obtain ⟨cause, failed, lacks⟩ := lacks
      exact (copyFromUser_lacksFrames guarded).of_yields copies cause failed lacks
  | setFailingSectors | setTransferCaps | replaceFile =>
      cases yields
      exact lacks.elim

/-- Asking for a frame ends if frames can be reached. It fails exactly if none is free and no
resident page of any process can be moved; then none can be moved afterwards either. A clean page
that its file gives back is enough, whatever becomes of swap. That there are no frames is the
answer only of a machine without frames. -/
theorem Reachable.acquires (reachable : Reachable vm) :
    (∀ request : FrameRequest, request.required = false → ∀ process page,
      ((vm.frames.pool.Addressable fun _ => False) → ∃ result after,
        (vm.acquireFrame request process page).Yields (result, after)) ∧
      ∀ result after, (vm.acquireFrame request process page).Yields (result, after) →
        ((∃ cause, result = .error cause) ↔
          vm.frames.pool.free = [] ∧ ∀ other, ¬vm.toTenants.Persistable other) ∧
        ((∃ cause, result = .error cause) →
          ∀ other, after.toTenants.Persistable other ↔ vm.toTenants.Persistable other) ∧
        (result = .error .outOfFrames → vm.frames.total = 0)) ∧
    (∀ page entry id mapping, vm.entryAt page = some entry → entry.isResident = true →
      entry.mapping = some id → vm.mappings.get? id = some mapping →
      mapping.evictsToFile page.2 = .ok true → vm.dirtyAt page = false →
      ∀ request : FrameRequest, request.required = false → ∀ process wanted result after,
        (vm.acquireFrame request process wanted).Yields (result, after) →
          ∃ frame, result = .ok frame) ∧
    ∀ operation answer after, (vm.step operation).Yields (answer, after) →
      answer.LacksFrames → vm.frames.total = 0 := by
  have guarded := reachable.guarded
  have fails : ∀ request : FrameRequest, request.required = false → ∀ process page result after,
      (vm.acquireFrame request process page).Yields (result, after) →
        ((∃ cause, result = .error cause) ↔
          vm.frames.pool.free = [] ∧ ∀ other, ¬vm.toTenants.Persistable other) ∧
        ((∃ cause, result = .error cause) → vm.toTenants.Agrees after.toTenants) := by
    intro request optional process page result after yields
    obtain ⟨decides, agrees⟩ := (acquireFrame_decides guarded.consistent guarded.regular optional
      process page).of_yields yields
    have refused : (∃ cause, result = .error cause) ↔ result.isOk = false := by
      cases result with
      | ok frame => exact iff_of_false (by rintro ⟨_, ⟨⟩⟩) Bool.noConfusion
      | error cause => exact iff_of_true ⟨cause, rfl⟩ rfl
    rw [← refused] at decides agrees
    exact ⟨decides, agrees⟩
  refine ⟨fun request optional process page => ⟨fun addressable => ?_, ?_⟩, ?_,
    fun operation answer after => reachable.total_of_lacksFrames⟩
  · obtain ⟨⟨result, after⟩, yields⟩ :=
      (guarded.acquireFrame_satisfies addressable optional process page).exists_yields
    exact ⟨result, after, yields⟩
  · intro result after yields
    obtain ⟨decides, agrees⟩ := fails request optional process page result after yields
    refine ⟨decides, fun failed other => (agrees failed).persistable_iff, ?_⟩
    rintro rfl
    have wants := (vm.acquireFrame_failsFor process request page).of_yields yields
    exact guarded.total_of_frameless ((wants _ rfl).honest (.inl rfl))
  · intro page entry id mapping found resident belongs live filed clean request optional process
      wanted result after yields
    cases result with
    | ok frame => exact ⟨frame, rfl⟩
    | error cause =>
        have decides := (fails request optional process wanted _ after yields).1
        obtain ⟨_, stuck⟩ := decides.mp ⟨cause, rfl⟩
        exact absurd (.clean entry id mapping found resident belongs live filed clean) (stuck page)

/-- With the only frame in use and no sector that can be written, a frame is to be had from a clean
page of a file, and none from an anonymous page. -/
theorem acquires_oneFrame : ∃ filed anonymous : Vm .scaleModel,
    Reachable filed ∧ (filed.frames.pool.Addressable fun _ => False) ∧
    filed.frames.pool.free = [] ∧
    (∃ frame after, (filed.acquireFrame {} ⟨1⟩ ⟨2⟩).Yields (.ok frame, after)) ∧
    Reachable anonymous ∧
    (∃ cause after, (anonymous.acquireFrame {} ⟨1⟩ ⟨2⟩).Yields (.error cause, after)) ∧
    ∀ other, ¬anonymous.toTenants.Persistable other := by
  have passes : (oneFrame.run? [.createProcess ⟨1⟩, .mapSegment ⟨1⟩ twoBytes.segment,
      .copyFromUser ⟨1⟩ ⟨0x1000⟩ #[0] ⟨0⟩, .setFailingSectors [] (List.range 16)]).any (fun vm =>
        decide (vm.frames.extent = oneFrame.frames.extent) && vm.frames.pool.free == [] &&
        decide (vm.mappings.get? ⟨1⟩ = some twoBytes) && !vm.dirtyAt (⟨1⟩, ⟨1⟩) &&
        (vm.entryAt (⟨1⟩, ⟨1⟩)).any fun entry =>
          entry.isResident && entry.mapping == some ⟨1⟩) = true := by
    decide +kernel
  have fails : (oneFrame.run? [.createProcess ⟨1⟩, .installPage ⟨1⟩ ⟨0x1000⟩ true,
      .setFailingSectors [] (List.range 16)]).any (fun vm =>
        (vm.acquireFrame {} ⟨1⟩ ⟨2⟩).passes fun (result, _) => !result.isOk) = true := by
    decide +kernel
  simp only [Option.any_eq_true _ _, Bool.and_eq_true, beq_iff_eq, decide_eq_true_eq,
    Bool.not_eq_true'] at passes
  simp only [Option.any_eq_true _ _, Run.passes_iff, Prod.exists, Bool.not_eq_true'] at fails
  obtain ⟨filed, ran, ⟨⟨⟨extent, full⟩, live⟩, clean⟩, entry, found, resident, belongs⟩ := passes
  obtain ⟨anonymous, ran', result, after, yields, refused⟩ := fails
  have reachable : Reachable filed := (Reachable.boot oneFrame_booted).run ran
  have reachable' : Reachable anonymous := (Reachable.boot oneFrame_booted).run ran'
  have addressable : filed.frames.pool.Addressable fun _ => False :=
    (oneFrame_addressable _).congr extent
  obtain ⟨ends, gives, _⟩ := reachable.acquires
  obtain ⟨fails, _⟩ := reachable'.acquires
  have returns : twoBytes.evictsToFile ⟨1⟩ = .ok true := by decide +kernel
  obtain ⟨given, left, obtains⟩ := (ends {} rfl ⟨1⟩ ⟨2⟩).1 addressable
  obtain ⟨frame, rfl⟩ :=
    gives _ entry _ _ found resident belongs live returns clean {} rfl ⟨1⟩ ⟨2⟩ given left obtains
  refine ⟨filed, anonymous, reachable, addressable, full, ⟨frame, left, obtains⟩, reachable', ?_⟩
  cases result with
  | ok frame => cases refused
  | error cause =>
      have decides := ((fails {} rfl ⟨1⟩ ⟨2⟩).2 _ after yields).1
      exact ⟨⟨cause, after, yields⟩, (decides.mp ⟨cause, rfl⟩).2⟩

end Vm
end DemandPaging
