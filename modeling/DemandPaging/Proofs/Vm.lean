import DemandPaging.Proofs.Clock
import DemandPaging.Proofs.Tenants
import DemandPaging.Vm

/-!
Virtual memory that is consistent: every frame is free or in the ring, and the tenants
agree with the frame table. Obtaining a frame may move other pages; until the new owner
has entered the frame into its address space, the frame is held.
-/

namespace DemandPaging

variable {arch : Architecture} {tolerated : Violation → Prop}

namespace Tenants

variable {table : FrameTable arch} {tenants : Tenants arch} {ring : List FrameNumber}
  {ownerOf : FrameNumber → Option UserPage}

theorem Consistent.idle_frame (consistent : tenants.Consistent tolerated ownerOf)
    {frame : FrameNumber} (unowned : ownerOf frame = none) (contents : FrameNumber → Page) (page : UserPage) :
    ¬(tenants.layout contents).Backs page (.frame frame) := by
  intro backs
  have owned := (consistent.owners frame page).mpr backs
  exact absurd (unowned.symm.trans owned) (by simp)

/-- The tenants answer the frame table as a search for a victim needs, as far as the parts of
files behind resident pages are found. -/
theorem owners_answer_of_range (tolerated unranged : Violation → Prop) (table : FrameTable arch)
    (ring : List FrameNumber) (start : Layout)
    (range : ∀ moved, Relation.ReflTransGen Shift start moved → moved.Sound unranged →
      ∀ page entry id mapping, moved.entry page = some entry → entry.isResident = true →
        entry.mapping = some id → moved.mapping id = some mapping → ∀ violation,
          mapping.fileRange page.2 = .error violation → tolerated violation) :
    (owners : FrameOwners (Tenants arch)).Answers tolerated table.ownerOf table.pool.page ring
      (fun tenants => tenants.Consistent unranged table.ownerOf ∧
        Relation.ReflTransGen Shift start (tenants.layout table.pool.page))
      (fun frame tenants => tenants.Consistent unranged
          (Function.update table.ownerOf frame none) ∧
        Relation.ReflTransGen Shift start (tenants.layout table.pool.page))
      (fun tenants => ring.countP fun frame => (table.ownerOf frame).any tenants.accessedAt) := by
  refine ⟨fun _ _ => List.countP_le_length, ?_, ?_, ?_, ?_⟩
  · rintro frame owner tenants _ _ ⟨consistent, path⟩
    obtain ⟨_, cleared, layout, _⟩ := testAndClearAccessed_spec consistent owner
    refine ⟨cleared, ?_⟩
    change Relation.ReflTransGen Shift start
      ((tenants.testAndClearAccessed owner.1 owner.2).2.layout table.pool.page)
    rwa [layout]
  · rintro frame owner tenants member owned ⟨consistent, _⟩ again
    obtain ⟨accessed, _, _, cleared⟩ := testAndClearAccessed_spec consistent owner
    change List.countP (fun frame => (table.ownerOf frame).any
      (tenants.testAndClearAccessed owner.1 owner.2).2.accessedAt) ring < _
    refine countP_lt member ?_ ?_ ?_
    · intro other _ still
      obtain ⟨page, named, set⟩ := (Option.any_eq_true _ _).mp still
      refine (Option.any_eq_true _ _).mpr ⟨page, named, ?_⟩
      by_cases same : page = owner
      · rw [same]
        exact accessed.symm.trans again
      · rwa [cleared, if_neg same] at set
    · rw [owned]
      exact accessed.symm.trans again
    · rw [owned]
      exact (cleared owner).trans (if_pos rfl)
  · rintro frame owner tenants _ owned ⟨consistent, path⟩
    refine .mono (evict_vacates_of_range consistent owned ?_) ?_
    · intro entry id mapping present belongs live
      obtain ⟨again, present', resident⟩ := (consistent.owners frame owner).mp owned
      cases present.symm.trans present'
      exact range _ path (consistent.sound _) owner entry id mapping present
        (PageEntry.isResident_of_frame resident) belongs live
    · rintro ⟨result, moved⟩ ⟨moves, outcome⟩
      cases result with
      | ok _ => exact ⟨outcome, path.trans moves⟩
      | error cause => exact ⟨outcome, path.trans moves⟩
  · rintro frame tenants unowned ⟨consistent, path⟩
    refine ⟨?_, path⟩
    rwa [← unowned, Function.update_eq_self]

theorem owners_answer (tolerated : Violation → Prop) (table : FrameTable arch)
    (ring : List FrameNumber) (start : Layout) :
    (owners : FrameOwners (Tenants arch)).Answers tolerated table.ownerOf table.pool.page ring
      (fun tenants => tenants.Consistent tolerated table.ownerOf ∧
        Relation.ReflTransGen Shift start (tenants.layout table.pool.page))
      (fun frame tenants => tenants.Consistent tolerated
          (Function.update table.ownerOf frame none) ∧
        Relation.ReflTransGen Shift start (tenants.layout table.pool.page))
      (fun tenants => ring.countP fun frame => (table.ownerOf frame).any tenants.accessedAt) := by
  refine owners_answer_of_range tolerated tolerated table ring start ?_
  intro moved _ sound page entry id mapping found _ belongs live
  obtain ⟨again, live', _, inside, _⟩ := (sound.admits page entry found).mapped id belongs
  cases live.symm.trans live'
  exact sound.ranges id mapping page.2 live inside

end Tenants

namespace Vm

variable {vm after : Vm arch} {frame : FrameNumber} {owner : UserPage}

def layout (vm : Vm arch) : Layout :=
  vm.toTenants.layout vm.frames.pool.page

/-- Every frame in use is in the ring, and its owner has it. -/
structure Consistent (tolerated : Violation → Prop) (vm : Vm arch) : Prop where
  frames : ∃ ring, vm.frames.WellFormed tolerated ring ∧
    ∀ frame, frame ∈ vm.frames → frame ∈ ring
  tenants : vm.toTenants.Consistent tolerated vm.frames.ownerOf

/-- A frame has been obtained for a page, which does not have it yet. -/
structure Holds (tolerated : Violation → Prop) (vm : Vm arch) (frame : FrameNumber)
    (owner : UserPage) : Prop where
  frames : ∃ ring, vm.frames.WellFormed tolerated ring ∧ frame ∉ ring ∧
    ∀ other, other ∈ vm.frames → other = frame ∨ other ∈ ring
  tenants : vm.toTenants.Consistent tolerated (Function.update vm.frames.ownerOf frame none)
  owned : vm.frames.ownerOf frame = some owner

theorem acquireFrame_satisfies (consistent : vm.Consistent tolerated) {request : FrameRequest}
    (optional : request.required = false) (process : ProcessId) (page : PageNumber) :
    (vm.acquireFrame request process page).Satisfies tolerated fun (result, after) =>
      after.stack = vm.stack ∧ Relation.ReflTransGen Shift vm.layout after.layout ∧
        match result with
        | .ok frame => after.Holds tolerated frame (process, page) ∧
            (request.zeroed → after.frames.pool.page frame = Page.zero)
        | .error _ => after.Consistent tolerated := by
  obtain ⟨ring, wellFormed, settled⟩ := consistent.frames
  have answers := Tenants.owners_answer tolerated vm.frames ring vm.layout
  unfold acquireFrame
  refine .bind (FrameTable.acquire_satisfies wellFormed answers settled
    ⟨consistent.tenants, .refl⟩ optional process page) ?_
  rintro ⟨result, frames, tenants⟩ outcome
  cases result with
  | error cause =>
      obtain ⟨wellFormed', pool, owners, consistent', path⟩ := outcome
      refine .pure ⟨rfl, ?_, ⟨ring, wellFormed', ?_⟩, ?_⟩
      · change Relation.ReflTransGen Shift vm.layout (tenants.layout frames.pool.page)
        rwa [pool]
      · intro frame tracked
        rw [← FrameTable.ownerOf_isSome, owners, FrameTable.ownerOf_isSome] at tracked
        exact settled frame tracked
      · change tenants.Consistent tolerated frames.ownerOf
        rwa [owners]
  | ok frame =>
      obtain ⟨⟨consistent', path⟩, pages, owners, ring', wellFormed', outside, others⟩ := outcome
      have unowned : Function.update vm.frames.ownerOf frame none frame = none :=
        Function.update_self _ _ _
      have idle := consistent'.idle_frame unowned vm.frames.pool.page
      refine .pure ⟨rfl, ?_, ⟨⟨ring', wellFormed', outside, others⟩, ?_, ?_⟩, ?_⟩
      · change Relation.ReflTransGen Shift vm.layout (tenants.layout frames.pool.page)
        rw [pages]
        split
        · exact path.tail (.scratchFrame _ frame Page.zero idle)
        · exact path
      · change tenants.Consistent tolerated (Function.update frames.ownerOf frame none)
        rwa [owners, Function.update_idem]
      · change frames.ownerOf frame = _
        rw [owners, Function.update_self]
      · intro zeroed
        change frames.pool.page frame = _
        rw [pages, if_pos zeroed, Function.update_self]

end Vm
end DemandPaging
