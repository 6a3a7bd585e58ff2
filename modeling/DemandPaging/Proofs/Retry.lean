import DemandPaging.Proofs.Failure

/-!
Asking for a page again. A page that is in no frame stays as it is while operations leave it where
it is, so a request that failed for want of resources is as good as new later on. When a frame is
to be had and the slot of the page can be read, the page is brought in with what it held.
-/

namespace DemandPaging

variable {arch : Architecture} {tolerated : Violation → Prop}

namespace Layout

variable {layout middle moved : Layout} {page other : UserPage} {frame : FrameNumber}

theorem untouched_of_new (new : layout.entry page = none) (still : moved.entry page = none) :
    Untouched page layout moved :=
  ⟨still.trans new.symm, fun files => (supply_new still files).trans (supply_new new files).symm⟩

theorem backs_of_arrival (arrival : Arrival page frame layout moved) :
    moved.Backs page (.frame frame) := by
  cases arrival with
  | fresh | swapped | filed => exact backs_place_self.mpr rfl

theorem untouched_of_arrival (away : layout.resident page = false)
    (arrival : Arrival other frame layout moved) (apart : page ≠ other) :
    Untouched page layout moved := by
  cases arrival with
  | fresh | swapped | filed =>
      refine untouched_of_entry away ?_ (fun _ _ => rfl) fun _ _ => rfl
      rw [place_entry, if_neg apart]
      rfl

theorem untouched_of_brought (away : layout.resident page = false)
    (path : Relation.ReflTransGen Shift layout middle)
    (arrival : Arrival other frame middle moved) (apart : page ≠ other) :
    Untouched page layout moved := by
  have moves := untouched_of_moves away path
  exact moves.trans (untouched_of_arrival (moves.away away) arrival apart)

theorem untouched_of_reach (away : layout.resident page = false) (reach : Reach other layout moved)
    (apart : page ≠ other) : Untouched page layout moved := by
  cases reach with
  | here => exact .refl page layout
  | brought middle frame _ path arrival => exact untouched_of_brought away path arrival apart

theorem untouched_of_stored (away : layout.resident page = false) {process : ProcessId}
    {piece : RangePiece} {source : Bytes} (stored : Stored process piece source layout moved)
    (apart : page ≠ (process, piece.address.page)) : Untouched page layout moved := by
  obtain ⟨middle, frame, reach, _, rfl⟩ := stored
  have reached := untouched_of_reach away reach apart
  exact reached.trans
    (untouched_of_entry (reached.away away) rfl (fun _ _ => rfl) fun _ _ => rfl)

theorem untouched_of_shrink {ended : MappingId → Prop} (sound : layout.Sound tolerated)
    (away : layout.resident page = false) (step : Shrink ended layout moved) :
    moved.entry page = none ∨ Untouched page layout moved := by
  cases step with
  | shift step => exact .inr (untouched_of_moves away (.single step))
  | leave => exact .inr ⟨rfl, fun _ => rfl⟩
  | remove gone entry found belongs saved =>
      by_cases here : page = gone
      · exact .inl ((place_entry layout gone page none).trans (if_pos here))
      · refine .inr (untouched_of_entry away ?_ (fun _ _ => rfl) fun _ _ => rfl)
        rw [place_entry, if_neg here]
  | unmap id ending unused =>
      refine .inr (untouched_of_entry away rfl (fun _ _ => rfl) ?_)
      rintro other ⟨entry, found, source⟩
      have belongs := (sound.admits page entry found).filed other source
      refine Function.update_of_ne ?_ _ _
      rintro rfl
      exact unused page entry found belongs

theorem untouched_of_shrinks {ended : MappingId → Prop} (sound : layout.Sound tolerated)
    (away : layout.resident page = false)
    (path : Relation.ReflTransGen (Shrink ended) layout moved) :
    moved.entry page = none ∨ Untouched page layout moved := by
  induction path with
  | refl => exact .inr (.refl page layout)
  | tail path step ih =>
      have sound' := sound.shrinks path
      obtain gone | untouched := ih
      · have nowhere := resident_eq_false.mpr fun entry found => by
          cases gone.symm.trans found
        refine .inl ?_
        obtain gone' | untouched := untouched_of_shrink sound' nowhere step
        · exact gone'
        · exact untouched.entry.trans gone
      · exact (untouched_of_shrink sound' (untouched.away away) step).imp_right untouched.trans

theorem untouched_of_effect {operation : Vm.Operation} (sound : layout.Sound tolerated)
    (away : layout.resident page = false) (effect : Vm.Effect operation layout moved)
    (same : moved.entry page = layout.entry page) : Untouched page layout moved := by
  cases effect with
  | moves _ path => exact untouched_of_moves away path
  | spawns | refiles => exact ⟨rfl, fun _ => rfl⟩
  | brings other frame middle _ path arrival =>
      refine untouched_of_brought away path arrival ?_
      rintro rfl
      obtain ⟨entry, found, resident⟩ := backs_of_arrival arrival
      exact not_backs_frame away ⟨entry, same.symm.trans found, resident⟩
  | loses ended _ path =>
      obtain gone | untouched := untouched_of_shrinks sound away path
      · exact untouched_of_new (same.symm.trans gone) gone
      · exact untouched
  | maps mapping fresh =>
      refine untouched_of_entry away same (fun _ _ => rfl) ?_
      rintro id ⟨entry, found, source⟩
      have admits := sound.admits page entry found
      obtain ⟨known, live, _⟩ := admits.mapped id (admits.filed id source)
      rw [extend_mapping, if_neg]
      rintro rfl
      cases fresh.symm.trans live

end Layout

namespace SwapDevice

variable {device : SwapDevice} {first : Nat}

instance (device : SwapDevice) (sector : Nat) : Decidable (device.Reads sector) :=
  inferInstanceAs (Decidable (_ ∧ _))

theorem readSectors_of_reads (page : Page) {indices : List (Fin sectorsPerPage)}
    (reads : ∀ index ∈ indices, device.Reads (first + index.val)) :
    (device.readSectors first page indices).1 = .ok () := by
  induction indices generalizing page with
  | nil => rfl
  | cons index rest ih =>
      obtain ⟨works, inside⟩ := reads index List.mem_cons_self
      have read : device.read (first + index.val) =
          .ok (device.disk.written.getD (first + index.val) Sector.zero) := by
        unfold SwapDevice.read Disk.read
        rw [works, if_neg Bool.false_ne_true, if_pos inside]
      unfold readSectors
      rw [read]
      exact ih _ fun other listed => reads other (List.mem_cons_of_mem index listed)

end SwapDevice

namespace SwapTable

variable {swap : SwapTable} {slot : SwapSlot}

/-- The device reads every sector of a slot. -/
def Reads (swap : SwapTable) (slot : SwapSlot) : Prop :=
  ∀ index : Fin sectorsPerPage, swap.device.Reads (slot.value * sectorsPerPage + index.val)

theorem load_of_reads (wellFormed : swap.WellFormed) (allocated : swap.isAllocated slot = true)
    (reads : swap.Reads slot) (dest : Page) :
    (swap.load slot dest).Satisfies (fun _ => True) fun (result, _) => result = .ok () := by
  unfold load
  refine .bind (.lift .any) fun _ _ => ?_
  refine .bind (.lift (.of_eq (wellFormed.firstSector_eq (wellFormed.lt_capacity allocated)) rfl)) ?_
  rintro _ rfl
  have done : (swap.device.readPage (slot.value * sectorsPerPage) dest).1 = .ok () :=
    SwapDevice.readSectors_of_reads dest fun index _ => reads index
  split
  · rename_i cause filled read
    rw [read] at done
    cases done
  · exact .bind (.lift .any) fun _ _ => .bind .log fun _ _ => .pure rfl

end SwapTable

namespace Vm

variable {vm middle ready : Vm arch} {process : ProcessId} {page : UserPage}
  {operation : Operation}

theorem copyToUser_untouched (consistent : vm.Consistent tolerated)
    (away : vm.layout.resident page = false) {address : VirtualAddress} {data : Bytes}
    {stackPointer : VirtualAddress}
    (apart : ¬(Operation.copyToUser process address data stackPointer).Accesses page) :
    (vm.copyToUser process address data stackPointer).Satisfies tolerated fun (_, after) =>
      Layout.Untouched page vm.layout after.layout := by
  unfold copyToUser
  split
  · refine .mono (writePieces_satisfies
      (fun _ rest now => Layout.Untouched page vm.layout now.layout ∧
        ∀ piece ∈ rest, page ≠ (process, piece.address.page))
      (fun _ last => Layout.Untouched page vm.layout last.layout)
      ?_ ?_ (fun _ holds => holds.1) (RangePiece.tiles_ofRange address data.size) consistent
      ⟨.refl page vm.layout, ?_⟩) fun _ h => h.2.2
    · rintro _ piece rest now after _ ⟨untouched, others⟩ _ _ _ _ stored
      exact ⟨untouched.trans (Layout.untouched_of_stored (untouched.away away) stored
        (others piece List.mem_cons_self)),
        fun other listed => others other (List.mem_cons_of_mem piece listed)⟩
    · rintro _ _ _ now after _ _ ⟨untouched, _⟩ _ _ path
      exact untouched.trans (Layout.untouched_of_moves (untouched.away away) path)
    · rintro piece listed rfl
      obtain ⟨i, inside, place⟩ := (RangePiece.opens_of_mem_ofRange listed).2.1
      exact apart ⟨rfl, i, inside, congrArg Address.page place⟩
  · exact .pure (.refl page vm.layout)

theorem copyFromUser_untouched (consistent : vm.Consistent tolerated)
    (away : vm.layout.resident page = false) {address : VirtualAddress} {buffer : Bytes}
    {stackPointer : VirtualAddress}
    (apart : ¬(Operation.copyFromUser process address buffer stackPointer).Accesses page) :
    (vm.copyFromUser process address buffer stackPointer).Satisfies tolerated
      fun (_, _, after) => Layout.Untouched page vm.layout after.layout := by
  unfold copyFromUser
  split
  · refine .mono (readPieces_satisfies
      (fun _ rest _ now => Layout.Untouched page vm.layout now.layout ∧
        ∀ piece ∈ rest, page ≠ (process, piece.address.page))
      (fun _ _ last => Layout.Untouched page vm.layout last.layout)
      ?_ ?_ (fun _ _ holds => holds.1) rfl (RangePiece.tiles_ofRange address buffer.size)
      consistent ⟨.refl page vm.layout, ?_⟩) fun _ h => h.2.2
    · rintro _ piece rest _ _ now after _ _ ⟨untouched, others⟩ _ _ _ _ ⟨_, reach, _⟩
      exact ⟨untouched.trans (Layout.untouched_of_reach (untouched.away away) reach
        (others piece List.mem_cons_self)),
        fun other listed => others other (List.mem_cons_of_mem piece listed)⟩
    · rintro _ _ _ _ now after _ _ ⟨untouched, _⟩ _ path
      exact untouched.trans (Layout.untouched_of_moves (untouched.away away) path)
    · rintro piece listed rfl
      obtain ⟨i, inside, place⟩ := (RangePiece.opens_of_mem_ofRange listed).2.1
      exact apart ⟨rfl, i, inside, congrArg Address.page place⟩
  · exact .pure (.refl page vm.layout)

/-- A state that operations lead to which leave the entry of a page as it is, and its process
alive, and copy none of its bytes. -/
inductive Rests (page : UserPage) (vm : Vm arch) : Vm arch → Prop
  | start : Rests page vm vm
  | step {middle after : Vm arch} {operation : Operation} {answer : Answer}
      (rests : Rests page vm middle) (apart : operation.IsCopy → ¬operation.Accesses page)
      (yields : (middle.step operation).Yields (answer, after))
      (live : after.spaces.contains page.1 = true)
      (same : after.entryAt page = middle.entryAt page) : Rests page vm after

theorem keeps_of_yields {after : Vm arch} (consistent : vm.Consistent fun _ => True)
    {answer : Answer} (yields : (vm.step operation).Yields (answer, after)) :
    Keeps (fun _ => True) operation vm after :=
  (step_satisfies consistent (operation.tolerable_of_forall (fun _ => trivial) vm)).of_yields
    yields

/-- An operation does not touch a page in no frame that keeps its entry, unless it copies bytes
of it. -/
theorem untouched_of_yields {after : Vm arch} (consistent : vm.Consistent fun _ => True)
    (away : vm.layout.resident page = false) {answer : Answer}
    (apart : operation.IsCopy → ¬operation.Accesses page)
    (yields : (vm.step operation).Yields (answer, after))
    (same : after.entryAt page = vm.entryAt page) :
    Layout.Untouched page vm.layout after.layout := by
  cases course_of_yields consistent yields with
  | stored process address data stackPointer outcome copied =>
      exact (copyToUser_untouched consistent away (apart trivial)).of_yields copied
  | fetched process address buffer stackPointer outcome filled copied =>
      exact (copyFromUser_untouched consistent away (apart trivial)).of_yields copied
  | other _ _ _ effect =>
      exact Layout.untouched_of_effect consistent.layout_sound away effect same

theorem Rests.untouched (rests : vm.Rests page ready) (reachable : Reachable vm)
    (live : vm.spaces.contains page.1 = true) (away : vm.layout.resident page = false) :
    Reachable ready ∧ ready.stack = vm.stack ∧ ready.spaces.contains page.1 = true ∧
      Layout.Untouched page vm.layout ready.layout := by
  induction rests with
  | start => exact ⟨reachable, rfl, live, .refl page vm.layout⟩
  | step rests apart yields live' same ih =>
      obtain ⟨reachable', stack, _, untouched⟩ := ih
      have consistent := reachable'.consistent
      refine ⟨.step reachable' yields, (keeps_of_yields consistent yields).1.trans stack, live', ?_⟩
      exact untouched.trans
        (untouched_of_yields consistent (untouched.away away) apart yields same)

theorem classify_congr {fault : PageFault} (stack : ready.stack = vm.stack)
    (live : vm.spaces.contains process = true) (live' : ready.spaces.contains process = true)
    (same : ready.entryAt (process, fault.address.page) =
      vm.entryAt (process, fault.address.page)) :
    ready.classify process fault = vm.classify process fault := by
  obtain ⟨space, found⟩ := Tenants.live_iff.mp live
  obtain ⟨space', found'⟩ := Tenants.live_iff.mp live'
  rw [Tenants.entryAt_of_space found, Tenants.entryAt_of_space found'] at same
  unfold classify faultSource
  simp only [found, found', same, stack]

theorem Operation.Seeks.congr (seeks : operation.Seeks vm page) (stack : ready.stack = vm.stack)
    (live : ready.spaces.contains page.1 = true) (same : ready.entryAt page = vm.entryAt page) :
    operation.Seeks ready page := by
  have before := seeks.sources.1
  cases operation with
  | resolveFault process fault =>
      obtain ⟨rfl, source, classified⟩ := seeks
      exact ⟨rfl, source, (classify_congr stack before live same).trans classified⟩
  | installPage process address writable =>
      obtain ⟨rfl, user, _, new⟩ := seeks
      exact ⟨rfl, user, live, same.trans new⟩
  | _ => exact seeks.elim

/-- The device works for a page, and a frame is to be had: one is free or another page can be moved
out of its own, and if the page is in swap its slot can be read. -/
structure Serves (vm : Vm arch) (page : UserPage) : Prop where
  frame : vm.frames.pool.free ≠ [] ∨ ∃ other, vm.toTenants.Persistable other
  reads : ∀ slot, vm.layout.Backs page (.swap slot) → vm.swap.Reads slot

theorem Serves.acquireFrame_isOk (serves : vm.Serves page)
    (consistent : vm.Consistent fun _ => True) (regular : vm.layout.Regular)
    {request : FrameRequest} (optional : request.required = false) (process : ProcessId)
    (number : PageNumber) :
    (vm.acquireFrame request process number).Satisfies (fun _ => True) fun (result, _) =>
      result.isOk = true := by
  refine .mono (acquireFrame_decides consistent regular optional process number) ?_
  rintro ⟨result, held⟩ ⟨refused, _⟩
  by_contra failed
  obtain ⟨full, stuck⟩ := refused.mp ((Bool.not_eq_true _).mp failed)
  obtain free | ⟨other, persistable⟩ := serves.frame
  · exact free full
  · exact stuck other persistable

theorem Holds.populate_isOk {frame : FrameNumber} {number : PageNumber} {source : PageSource}
    (holds : vm.Holds (fun _ => True) frame (process, number))
    (sources : vm.layout.Sources (process, number) source)
    (reads : ∀ slot, vm.layout.Backs (process, number) (.swap slot) → vm.swap.Reads slot) :
    (vm.populate frame number source).Satisfies (fun _ => True) fun (result, _) =>
      result = .ok () := by
  cases source with
  | zero => exact .pure rfl
  | swap slot =>
      obtain ⟨entry, found, source⟩ := id sources
      have allocated := (holds.tenants.slots slot).mpr ⟨_, entry, found, source⟩
      refine .bind (.lift .any) fun dest _ => ?_
      refine .bind (SwapTable.load_of_reads holds.tenants.swap allocated (reads slot sources) dest) ?_
      rintro ⟨result, contents, swap⟩ done
      exact .bind (.lift .any) fun _ _ => .pure done
  | file id =>
      unfold populate
      dsimp only
      split
      · trivial
      · exact .bind (.lift .any) fun _ _ => .bind (.lift .any) fun _ _ =>
          .bind (.lift .any) fun _ _ => .pure rfl

theorem Serves.bringIn_isOk {number : PageNumber} {source : PageSource}
    (serves : vm.Serves (process, number)) (consistent : vm.Consistent fun _ => True)
    (regular : vm.layout.Regular) (sources : vm.layout.Sources (process, number) source) :
    (vm.bringIn process number source).Satisfies (fun _ => True) fun (result, _) =>
      result.isOk = true := by
  unfold bringIn
  refine .bind (((serves.acquireFrame_isOk consistent regular rfl process number).and
    (acquireFrame_abides _ process number)).and
      (acquireFrame_satisfies consistent rfl process number)) ?_
  rintro ⟨acquired, held⟩ ⟨⟨done, abides⟩, _, path, outcome⟩
  cases acquired with
  | error cause => cases done
  | ok frame =>
      -- the search leaves the page where it is, and the sectors that can be read
      have away := Layout.resident_eq_false.mpr sources.elsewhere
      have same := (Layout.untouched_of_moves away path).entry
      have reads : ∀ slot, held.layout.Backs (process, number) (.swap slot) →
          held.swap.Reads slot := by
        rintro slot ⟨entry, found, source⟩ index
        rw [abides.reads]
        exact serves.reads slot ⟨entry, same.symm.trans found, source⟩ index
      refine .bind (outcome.1.populate_isOk (sources.moves path) reads) ?_
      rintro ⟨populated, filled⟩ done
      cases done
      refine .bind (.lift .any) fun _ _ => ?_
      dsimp only
      split
      · trivial
      · exact .bind (.lift .any) fun _ _ => .pure rfl

theorem Serves.installPage_isOk {address : VirtualAddress} {writable : Bool}
    (serves : vm.Serves (process, address.page)) (consistent : vm.Consistent fun _ => True)
    (regular : vm.layout.Regular)
    (seeks : (Operation.installPage process address writable).Seeks vm (process, address.page)) :
    (vm.installPage process address writable).Satisfies (fun _ => True) fun (result, _) =>
      result.isOk = true := by
  obtain ⟨_, user, live, new⟩ := seeks
  obtain ⟨space, found⟩ := Tenants.live_iff.mp live
  have unlisted : space.entries.contains address.page = false :=
    NumberMap.contains_eq_false.mpr ((Tenants.entryAt_of_space found address.page).symm.trans new)
  unfold installPage
  simp only [user, found, unlisted, Bool.not_true, Bool.false_eq_true, if_false]
  refine .bind (serves.acquireFrame_isOk consistent regular rfl process address.page) ?_
  rintro ⟨acquired, held⟩ done
  cases acquired with
  | error cause => cases done
  | ok frame =>
      dsimp only
      split
      · trivial
      · exact .bind (.lift .any) fun _ _ => .bind (.lift .any) fun _ _ =>
          .bind (.lift .any) fun _ _ => .pure rfl

/-- A request that nothing speaks against is granted where it is served. -/
theorem Serves.grants (serves : vm.Serves page) (consistent : vm.Consistent fun _ => True)
    (regular : vm.layout.Regular) (seeks : operation.Seeks vm page) :
    (vm.step operation).Satisfies (fun _ => True) fun (answer, after) =>
      ∃ frame, answer = .frame frame ∧ after.layout.Backs page (.frame frame) := by
  cases operation with
  | resolveFault process fault =>
      obtain ⟨rfl, source, classified⟩ := seeks
      have decides : (vm.classify process fault).Satisfies (fun _ => True) _ :=
        classify_satisfies fun _ _ _ _ => trivial
      rw [classified] at decides
      have resolves : (vm.resolveFault process fault).Satisfies (fun _ => True)
          fun answer => answer.1.isOk = true := by
        unfold resolveFault
        refine .bind (.lift (.of_eq classified rfl)) ?_
        rintro _ rfl
        refine .bind .log fun _ _ =>
          .bind (serves.bringIn_isOk consistent regular (decides source rfl).2.1) ?_
        rintro ⟨result, after⟩ done
        cases result with
        | error cause => cases done
        | ok frame => exact .pure rfl
      refine .bind (resolves.and (resolveFault_satisfies consistent fun _ _ _ _ => trivial)) ?_
      rintro ⟨result, after⟩ ⟨done, _, _, brings, _⟩
      cases result with
      | error cause => cases done
      | ok frame =>
          obtain ⟨_, ⟨_, _, arrival⟩, _⟩ := brings
          exact .pure ⟨frame, rfl, Layout.backs_of_arrival arrival⟩
  | installPage process address writable =>
      obtain rfl := seeks.1
      refine .bind ((serves.installPage_isOk consistent regular seeks).and
        (installPage_satisfies consistent process address writable)) ?_
      rintro ⟨result, after⟩ ⟨done, _, _, outcome⟩
      cases result with
      | error cause => cases done
      | ok frame =>
          obtain ⟨_, _, _, arrival⟩ := outcome
          exact .pure ⟨frame, rfl, Layout.backs_of_arrival arrival⟩
  | _ => exact seeks.elim

theorem Guarded.seeks_yields (guarded : vm.Guarded vm.frames.pool)
    (addressable : vm.frames.pool.Addressable fun _ => False) (seeks : operation.Seeks vm page)
    (placed : ∀ id mapping, vm.mappings.get? id = some mapping → mapping.owner = page.1 →
      mapping.contains page.2 = true → ¬mapping.Misplaces page.2) :
    ∃ answer after, (vm.step operation).Yields (answer, after) := by
  have away := seeks.away
  have satisfies : (vm.step operation).Satisfies (fun _ => False) fun _ => True := by
    refine guarded.step_satisfies addressable ?_ ?_
    · intro violation spurious
      cases operation with
      | resolveFault process fault =>
          obtain rfl := seeks.1
          obtain ⟨_, _, entry, found, resident, _⟩ := spurious
          have elsewhere := Layout.resident_eq_false.mp away entry found
          rw [resident] at elsewhere
          cases elsewhere
      | installPage => exact spurious
      | _ => exact seeks.elim
    · intro other accesses id mapping live owner inside violation failed
      cases operation with
      | resolveFault process fault =>
          obtain rfl := seeks.1
          obtain rfl := accesses
          exact placed id mapping live owner inside (Mapping.wordLimit_le_of_fileRange failed inside)
      | installPage => exact accesses
      | _ => exact seeks.elim
  obtain ⟨⟨answer, after⟩, yields⟩ := satisfies.exists_yields
  exact ⟨answer, after, yields⟩

/-- A request for a page that fails for want of resources loses nothing. Later on, while operations
leave the page's entry as it is, the same request is granted as soon as a frame is to be had and
the slot of the page, if any, can be read: it ends if frames can be reached and no mapping has the
page where offsets do not fit in a machine word, and if it ends the page is in the frame that is
the answer, with what it held or what its file gives. -/
theorem Reachable.forgoes {after : Vm arch} (reachable : Reachable vm)
    (requests : operation.Requests page) {answer : Answer}
    (yields : (vm.step operation).Yields (answer, after)) (short : answer.IsShortage) :
    vm.Forgoes page after ∧
    ∀ ready, after.Rests page ready → ready.Serves page →
      ((ready.frames.pool.Addressable fun _ => False) →
        (∀ id mapping, ready.mappings.get? id = some mapping → mapping.owner = page.1 →
          mapping.contains page.2 = true → ¬mapping.Misplaces page.2) →
        ∃ answer last, (ready.step operation).Yields (answer, last)) ∧
      ∀ answer last, (ready.step operation).Yields (answer, last) →
        ∃ frame, answer = .frame frame ∧ last.layout.Backs page (.frame frame) ∧
          vm.layout.supply last.files page = some (last.frames.pool.page frame) := by
  have consistent := reachable.consistent
  have reachable' : Reachable after := .step reachable yields
  obtain ⟨seeks, _, stack, path⟩ :=
    forfeits_of_yields consistent reachable.regular requests yields short
  have untouched := Layout.untouched_of_moves seeks.away path
  have live : after.spaces.contains page.1 = true :=
    (congrFun (Layout.live_of_moves path) page.1).trans seeks.sources.1
  refine ⟨forgoes_of_yields consistent reachable'.consistent reachable.regular requests yields
    short, fun ready rests serves => ?_⟩
  obtain ⟨reachable'', stack', live', rested⟩ :=
    rests.untouched reachable' live (untouched.away seeks.away)
  have untouched' := untouched.trans rested
  have seeks' := seeks.congr (stack'.trans stack) live' untouched'.entry
  have consistent'' := reachable''.consistent
  refine ⟨fun addressable placed => reachable''.guarded.seeks_yields addressable seeks' placed, ?_⟩
  intro answer last again
  obtain ⟨frame, rfl, backs⟩ :=
    (serves.grants consistent'' reachable''.regular seeks').of_yields again
  refine ⟨frame, rfl, backs, ?_⟩
  rw [← untouched'.supply]
  have quiet : ¬operation.IsCopy := by
    cases operation <;> first | exact seeks.elim | exact id
  have effect := (keeps_of_yields consistent'' again).2.2 quiet
  obtain ⟨entry, found, resident⟩ := backs
  refine Layout.supplies_of_effect effect page _ ?_
  rw [Layout.contentsOf_eq found, resident]
  rfl

theorem rests_of_setFailing {failed : Vm arch} {reads writes : List Nat} {answer : Answer}
    (yields : (failed.step (.setFailingSectors reads writes)).Yields (answer, ready))
    (live : failed.spaces.contains page.1 = true) : failed.Rests page ready := by
  have quiet : ¬(Operation.setFailingSectors reads writes).IsCopy := id
  have changed := yields
  cases changed
  exact .step .start (fun copies => absurd copies quiet) yields live rfl

/-- A page is read back whole from its slot after one of the slot's sectors has failed: by then
another page had left the only frame, which became free again. -/
theorem forgoes_failingSector : ∃ (vm failed ready last : Vm .scaleModel) (frame : FrameNumber),
    Reachable vm ∧ vm.frames.pool.free = [] ∧
    (vm.step (.resolveFault ⟨1⟩ ⟨⟨0x1000⟩, false, ⟨0⟩⟩)).Yields (.faultError .io, failed) ∧
    failed.frames.pool.free ≠ [] ∧ vm.Forgoes (⟨1⟩, ⟨1⟩) failed ∧
    failed.Rests (⟨1⟩, ⟨1⟩) ready ∧ ready.Serves (⟨1⟩, ⟨1⟩) ∧
    (ready.step (.resolveFault ⟨1⟩ ⟨⟨0x1000⟩, false, ⟨0⟩⟩)).Yields (.frame frame, last) ∧
    last.frames.pool.page frame = vm.swap.page ⟨0⟩ := by
  have passes : (oneFrame.run? [.createProcess ⟨1⟩, .installPage ⟨1⟩ ⟨0x1000⟩ true,
      .copyToUser ⟨1⟩ ⟨0x1000⟩ #[9] ⟨0⟩, .installPage ⟨1⟩ ⟨0x2000⟩ true,
      .setFailingSectors [3] []]).any (fun vm =>
        vm.frames.pool.free == [] &&
        ((vm.entryAt (⟨1⟩, ⟨1⟩)).any fun entry => entry.backing == .swap ⟨0⟩) &&
        (vm.resolveFault ⟨1⟩ ⟨⟨0x1000⟩, false, ⟨0⟩⟩).passes fun failed =>
          decide (failed.1 = .error .io) && decide (failed.2.frames.pool.free ≠ []) &&
          (failed.2.step (.setFailingSectors [] [])).passes fun ready =>
            decide (ready.2.frames.pool.free ≠ []) && ready.2.mappings.mappings.isEmpty &&
            decide (ready.2.frames.extent = oneFrame.frames.extent) &&
            decide (∀ index : Fin sectorsPerPage,
              ready.2.swap.device.Reads (0 * sectorsPerPage + index.val))) = true := by
    decide +kernel
  simp only [Option.any_eq_true _ _, Run.passes_iff, Bool.and_eq_true, Prod.exists, beq_iff_eq,
    decide_eq_true_eq] at passes
  obtain ⟨vm, ran, ⟨full, entry, found, source⟩, _, failed, resolves, ⟨rfl, freed⟩, answer, ready,
    works, ⟨⟨free, unmapped⟩, extent⟩, reads⟩ := passes
  have reachable : Reachable vm := (Reachable.boot oneFrame_booted).run ran
  have fails : (vm.step (.resolveFault ⟨1⟩ ⟨⟨0x1000⟩, false, ⟨0⟩⟩)).Yields
      (.faultError .io, failed) := Run.yields_bind.mpr ⟨_, resolves, rfl⟩
  have addressable : ready.frames.pool.Addressable fun _ => False :=
    (oneFrame_addressable _).congr extent
  have requests : (Operation.resolveFault ⟨1⟩ ⟨⟨0x1000⟩, false, ⟨0⟩⟩).Requests (⟨1⟩, ⟨1⟩) := rfl
  obtain ⟨forgoes, later⟩ := reachable.forgoes requests fails trivial
  obtain ⟨space, alive, _⟩ := Tenants.space_of_entryAt (forgoes.entry.trans found)
  have live : failed.spaces.contains ⟨1⟩ = true := Tenants.live_iff.mpr ⟨space, alive⟩
  have rests : failed.Rests (⟨1⟩, ⟨1⟩) ready := rests_of_setFailing works live
  have entries : ready.entryAt (⟨1⟩, ⟨1⟩) = some entry := by
    cases works
    exact forgoes.entry.trans found
  have serves : ready.Serves (⟨1⟩, ⟨1⟩) := by
    refine ⟨.inl free, ?_⟩
    rintro slot ⟨present, again, place⟩
    cases entries.symm.trans again
    cases source.symm.trans place
    exact reads
  obtain ⟨ends, outcome⟩ := later ready rests serves
  obtain ⟨answer, last, again⟩ := ends addressable fun id mapping known => by
    rw [MappingTable.get?, Std.ExtTreeMap.isEmpty_iff.mp unmapped] at known
    cases known
  obtain ⟨frame, rfl, _, contents⟩ := outcome answer last again
  refine ⟨vm, failed, ready, last, frame, reachable, full, fails, freed, forgoes, rests, serves,
    again, ?_⟩
  rw [Layout.supply_eq_find found, source] at contents
  exact (Option.some.inj contents).symm

/-- A fault on a page that its mapping misplaces fails for want of resources, and breaks a rule
when it is repeated and resources are there. -/
theorem overflow_after_shortage : ∃ vm failed ready : Vm .scaleModel, Reachable vm ∧
    (vm.step (.resolveFault ⟨1⟩ ⟨⟨0x2000⟩, false, ⟨0⟩⟩)).Yields (.faultError .io, failed) ∧
    failed.Rests (⟨1⟩, ⟨2⟩) ready ∧ ready.Serves (⟨1⟩, ⟨2⟩) ∧
    (ready.step (.resolveFault ⟨1⟩ ⟨⟨0x2000⟩, false, ⟨0⟩⟩)).outcome = .error (.overflow .add) := by
  have passes : (oneFrame.run? [.createProcess ⟨1⟩, .mapSegment ⟨1⟩ lastOffset,
      .installPage ⟨1⟩ ⟨0x3000⟩ true, .setFailingSectors [] (List.range 16)]).any (fun vm =>
        (vm.resolveFault ⟨1⟩ ⟨⟨0x2000⟩, false, ⟨0⟩⟩).passes fun failed =>
          decide (failed.1 = .error .io) && failed.2.spaces.contains ⟨1⟩ &&
          (failed.2.step (.setFailingSectors [] [])).passes fun ready =>
            ((ready.2.entryAt (⟨1⟩, ⟨2⟩)).any fun entry => entry.backing == .file ⟨1⟩) &&
            ((ready.2.acquireFrame {} ⟨1⟩ ⟨2⟩).passes fun held => held.1.isOk) &&
            (ready.2.step (.resolveFault ⟨1⟩ ⟨⟨0x2000⟩, false, ⟨0⟩⟩)).breaks
              (.overflow .add)) = true := by
    decide +kernel
  simp only [Option.any_eq_true _ _, Run.passes_iff, Run.breaks_iff, Bool.and_eq_true,
    Prod.exists, beq_iff_eq, decide_eq_true_eq] at passes
  obtain ⟨vm, ran, _, failed, resolves, ⟨rfl, live⟩, _, ready, works,
    ⟨⟨entry, found, source⟩, result, held, obtains, done⟩, broken⟩ := passes
  have reachable : Reachable vm := (Reachable.boot oneFrame_booted).run ran
  have fails : (vm.step (.resolveFault ⟨1⟩ ⟨⟨0x2000⟩, false, ⟨0⟩⟩)).Yields
      (.faultError .io, failed) := Run.yields_bind.mpr ⟨_, resolves, rfl⟩
  have reachable' : Reachable ready := .step (.step reachable fails) works
  have decides := (acquireFrame_decides reachable'.consistent reachable'.regular rfl ⟨1⟩
    ⟨2⟩).of_yields obtains
  refine ⟨vm, failed, ready, reachable, fails, rests_of_setFailing works live, ⟨?_, ?_⟩, broken⟩
  · by_contra stuck
    rw [not_or, not_not, not_exists] at stuck
    rw [decides.1.mpr stuck] at done
    cases done
  · rintro slot ⟨present, again, place⟩
    cases found.symm.trans again
    cases source.symm.trans place

end Vm
end DemandPaging
