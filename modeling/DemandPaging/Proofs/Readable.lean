import DemandPaging.Proofs.Departure
import DemandPaging.Proofs.Unbroken

/-!
Resident pages that can be read. A page comes to a frame only by its contents being written there,
so the frame has been reached, and it stays within reach: which frames there are, and the way to
their contents, is settled. While pages move they leave frames, and come to no other.
-/

namespace DemandPaging

variable {arch : Architecture} {tolerated : Violation → Prop} {ε : Type}

namespace FrameTable

variable {σ : Type} {table : FrameTable arch} {frame : FrameNumber} {owners : FrameOwners σ}
  {state : σ}

theorem setBytes_reaches (contents : Page) :
    (table.setBytes frame contents).Satisfies (fun _ => True) fun left =>
      left.extent = table.extent ∧ left.pool.reach frame = .ok () := by
  have reaches : (table.pool.setBytes frame contents).Satisfies (fun _ => True) fun _ =>
      table.pool.reach frame = .ok () :=
    .bind (.of_errors fun _ _ => trivial) fun _ reached => .pure reached
  refine .bind (.and reaches (FramePool.setBytes_extent contents)) ?_
  rintro pool ⟨reached, same⟩
  exact .pure ⟨same, (FramePool.reach_congr same).trans reached⟩

theorem track_reaches (request : FrameRequest) (owner : ProcessId) (page : PageNumber) :
    (table.track frame request owner page).Satisfies (fun _ => True) fun after =>
      request.zeroed = true → after.pool.reach frame = .ok () := by
  have clears : (if request.zeroed then table.setBytes frame Page.zero else pure table).Satisfies
      (fun _ => True) fun _ => request.zeroed = true → table.pool.reach frame = .ok () := by
    split
    · refine .mono (setBytes_reaches Page.zero) fun cleared reached _ => ?_
      exact (FramePool.reach_congr reached.1).symm.trans reached.2
    · rename_i kept
      exact .pure fun zeroed => absurd zeroed kept
  have reaches : (table.track frame request owner page).Satisfies (fun _ => True)
      fun _ => request.zeroed = true → table.pool.reach frame = .ok () :=
    .bind clears fun _ reached => .bind .any fun _ _ => .bind .any fun _ _ => .bind .any fun _ _ =>
      .bind .any fun _ _ => .pure reached
  refine .mono (reaches.and (track_extent request owner page)) ?_
  rintro after ⟨reached, same⟩ zeroed
  exact (FramePool.reach_congr same).trans (reached zeroed)

theorem acquire_reaches (request : FrameRequest) (owner : ProcessId) (page : PageNumber) :
    (table.acquire owners state request owner page).Satisfies (fun _ => True)
      fun (result, after, _) => request.zeroed = true →
        ∀ frame, result = .ok frame → after.pool.reach frame = .ok () := by
  unfold acquire FramePool.allocate
  cases table.pool.free with
  | cons frame free =>
      refine .bind (.lift (track_reaches request owner page)) fun _ reached => .pure ?_
      rintro zeroed _ ⟨⟩
      exact reached zeroed
  | nil =>
      refine .bind .any ?_
      rintro ⟨result, left, state⟩ _
      cases result with
      | ok frame =>
          refine .bind (.lift (track_reaches request owner page)) fun _ reached => .pure ?_
          rintro zeroed _ ⟨⟩
          exact reached zeroed
      | error cause =>
          dsimp only
          split
          · trivial
          · exact .pure fun _ _ failed => nomatch failed

end FrameTable

namespace Layout

variable {layout moved : Layout} {page other : UserPage} {frame target : FrameNumber}

theorem backs_frame_of_shift (step : Shift layout moved) (backs : moved.Backs page (.frame frame)) :
    layout.Backs page (.frame frame) := by
  have away : ∀ (other : UserPage) (entry : PageEntry), entry.backing ≠ .frame frame →
      (layout.place other (some entry)).Backs page (.frame frame) →
        layout.Backs page (.frame frame) := by
    intro other entry elsewhere backs
    by_cases same : page = other
    · subst same
      rw [backs_place_self] at backs
      exact absurd backs elsewhere
    · exact (backs_place same).mp backs
  cases step with
  | scratchSlot | scratchFrame | writeBack => exact backs
  | toSwap other entry _ slot => exact away other _ (by simp) backs
  | toFile other entry _ id => exact away other _ (by simp) backs

theorem backs_frame_of_moves (path : Relation.ReflTransGen Shift layout moved)
    (backs : moved.Backs page (.frame frame)) : layout.Backs page (.frame frame) := by
  induction path with
  | refl => exact backs
  | tail _ step ih => exact ih (backs_frame_of_shift step backs)

theorem backs_frame_of_arrival (arrival : Arrival page target layout moved)
    (backs : moved.Backs other (.frame frame)) :
    frame = target ∨ layout.Backs other (.frame frame) := by
  have arrived : ∀ (contents : Page) (entry : PageEntry), entry.backing = .frame target →
      ((layout.fillFrame target contents).place page (some entry)).Backs other (.frame frame) →
        frame = target ∨ layout.Backs other (.frame frame) := by
    intro contents entry resident backs
    by_cases same : other = page
    · subst same
      rw [backs_place_self, resident] at backs
      exact .inl (Backing.frame.inj backs).symm
    · exact .inr ((backs_place same).mp backs)
  cases arrival with
  | fresh | swapped | filed => exact arrived _ _ rfl backs

end Layout

namespace Vm

variable {vm after last : Vm arch} {process : ProcessId} {page : UserPage} {frame : FrameNumber}

/-- The frames are those that there were, and if a frame is the answer it was reached. -/
structure Obtains (vm after : Vm arch) (result : Except ε FrameNumber) : Prop where
  extent : after.frames.extent = vm.frames.extent
  reached : ∀ frame, result = .ok frame → after.frames.pool.reach frame = .ok ()

theorem Readable.moves (readable : vm.Readable tolerated)
    (path : Relation.ReflTransGen Shift vm.layout after.layout)
    (extent : after.frames.extent = vm.frames.extent) : after.Readable tolerated := by
  intro page frame backs
  rw [FramePool.reach_congr extent]
  exact readable page frame (Layout.backs_frame_of_moves path backs)

theorem Readable.arrives (readable : vm.Readable tolerated) {middle : Layout}
    (path : Relation.ReflTransGen Shift vm.layout middle)
    (arrival : Arrival page frame middle after.layout)
    (extent : after.frames.extent = vm.frames.extent)
    (reached : after.frames.pool.reach frame = .ok ()) : after.Readable tolerated := by
  intro other target backs violation failed
  obtain rfl | backs := Layout.backs_frame_of_arrival arrival backs
  · cases reached.symm.trans failed
  · rw [FramePool.reach_congr extent] at failed
    exact readable other target (Layout.backs_frame_of_moves path backs) violation failed

theorem Readable.brings (readable : vm.Readable tolerated) {result : Except ε FrameNumber}
    (brings : Brings page vm.layout after.layout result) (obtains : vm.Obtains after result) :
    after.Readable tolerated := by
  cases result with
  | error cause => exact readable.moves brings obtains.extent
  | ok frame =>
      obtain ⟨_, ⟨middle, path, arrival⟩, _⟩ := brings
      exact readable.arrives path arrival obtains.extent (obtains.reached frame rfl)

theorem acquireFrame_obtains {request : FrameRequest} (process : ProcessId) (page : PageNumber) :
    (vm.acquireFrame request process page).Satisfies (fun _ => True) fun (result, after) =>
      after.frames.extent = vm.frames.extent ∧
        (request.zeroed = true → vm.Obtains after result) := by
  unfold acquireFrame
  refine .bind ((FrameTable.acquire_extent request process page).and
    (FrameTable.acquire_reaches request process page)) ?_
  rintro ⟨result, frames, tenants⟩ ⟨extent, reached⟩
  exact .pure ⟨extent, fun zeroed => ⟨extent, reached zeroed⟩⟩

theorem populate_reaches {source : PageSource} (page : PageNumber) (read : source ≠ .zero) :
    (vm.populate frame page source).Satisfies (fun _ => True) fun (_, filled) =>
      filled.frames.extent = vm.frames.extent ∧ filled.frames.pool.reach frame = .ok () := by
  cases source with
  | zero => exact absurd rfl read
  | swap slot =>
      refine .bind (.lift .any) fun dest _ => .bind .any ?_
      rintro ⟨result, contents, swap⟩ _
      exact .bind (.lift (FrameTable.setBytes_reaches contents)) fun _ reached => .pure reached
  | file id =>
      unfold populate
      dsimp only
      split
      · trivial
      · refine .bind (.lift .any) fun dest _ => .bind (.lift .any) fun contents _ => ?_
        exact .bind (.lift (FrameTable.setBytes_reaches contents)) fun _ reached => .pure reached

theorem bringIn_obtains (process : ProcessId) (page : PageNumber) (source : PageSource) :
    (vm.bringIn process page source).Satisfies (fun _ => True) fun (result, after) =>
      vm.Obtains after result := by
  unfold bringIn
  refine .bind (acquireFrame_obtains process page) ?_
  rintro ⟨acquired, held⟩ ⟨extent, zeroed⟩
  cases acquired with
  | error cause => exact .pure ⟨extent, fun _ failed => nomatch failed⟩
  | ok frame =>
      have filled : (held.populate frame page source).Satisfies (fun _ => True) fun (_, filled) =>
          filled.frames.extent = vm.frames.extent ∧ filled.frames.pool.reach frame = .ok () := by
        by_cases new : source = .zero
        · subst new
          exact .pure ⟨extent, (zeroed rfl).reached frame rfl⟩
        · refine .mono (populate_reaches page new) fun _ both => ⟨both.1.trans extent, both.2⟩
      refine .bind filled ?_
      rintro ⟨populated, filled⟩ ⟨extent, reached⟩
      cases populated with
      | error cause =>
          refine .bind (.lift FrameTable.release_extent) fun frames same => ?_
          exact .pure ⟨same.trans extent, fun _ failed => nomatch failed⟩
      | ok _ =>
          refine .bind (.lift FrameTable.markNotReferenced_extent) ?_
          rintro ⟨_, marked⟩ same
          dsimp only
          split
          · trivial
          · refine .bind (.lift .any) fun placed _ => .pure ⟨same.trans extent, ?_⟩
            rintro _ ⟨⟩
            exact (FramePool.reach_congr same).trans reached

theorem resolveFault_obtains (process : ProcessId) (fault : PageFault) :
    (vm.resolveFault process fault).Satisfies (fun _ => True) fun (result, after) =>
      vm.Obtains after result := by
  unfold resolveFault
  refine .bind (.lift .any) fun decided _ => ?_
  cases decided with
  | error cause => exact .pure ⟨rfl, fun _ failed => nomatch failed⟩
  | ok source =>
      refine .bind .log fun _ _ => ?_
      refine .bind (bringIn_obtains process fault.address.page source) ?_
      rintro ⟨result, after⟩ ⟨extent, reached⟩
      refine .pure ⟨extent, fun frame answered => ?_⟩
      cases result with
      | error cause => cases answered
      | ok _ =>
          cases answered
          exact reached frame rfl

theorem installPage_obtains (process : ProcessId) (address : VirtualAddress) (writable : Bool) :
    (vm.installPage process address writable).Satisfies (fun _ => True) fun (result, after) =>
      vm.Obtains after result := by
  have refused : ∀ cause : VmError, vm.Obtains vm (.error cause : Except VmError FrameNumber) :=
    fun _ => ⟨rfl, fun _ failed => nomatch failed⟩
  unfold installPage
  split
  · exact .pure (refused _)
  · dsimp only
    split
    · exact .pure (refused _)
    · split
      · exact .pure (refused _)
      · refine .bind (acquireFrame_obtains process address.page) ?_
        rintro ⟨acquired, held⟩ ⟨_, zeroed⟩
        obtain ⟨extent, reached⟩ := zeroed rfl
        cases acquired with
        | error cause => exact .pure ⟨extent, reached⟩
        | ok frame =>
            dsimp only
            split
            · trivial
            · refine .bind (.lift .any) fun _ _ => .bind (.lift .any) fun _ _ => ?_
              refine .bind (.lift FrameTable.markNotReferenced_extent) ?_
              rintro ⟨_, marked⟩ same
              refine .pure ⟨same.trans extent, ?_⟩
              rintro _ ⟨⟩
              exact (FramePool.reach_congr same).trans (reached frame rfl)

theorem Readable.access (readable : vm.Readable tolerated)
    (consistent : vm.Consistent fun _ => True) {number : PageNumber}
    {write : Bool} (granted : vm.access? process number write = some (frame, after)) :
    after.Readable tolerated := by
  have spec := access?_spec consistent process number write
  rw [granted] at spec
  obtain ⟨_, _, _, frames, layout⟩ := spec
  refine readable.fewer ?_ (congrArg FrameTable.extent frames)
  rw [layout]
  exact fun _ _ found => found

namespace Readable

theorem resolveFault (readable : vm.Readable tolerated) (consistent : vm.Consistent fun _ => True)
    (process : ProcessId) (fault : PageFault) :
    (vm.resolveFault process fault).Satisfies (fun _ => True) fun (_, after) =>
      after.Consistent (fun _ => True) ∧ after.Readable tolerated := by
  refine .mono (.and (resolveFault_satisfies consistent fun _ _ _ _ => trivial)
    (resolveFault_obtains process fault)) ?_
  rintro ⟨result, after⟩ ⟨⟨_, consistent', brings, _⟩, obtains⟩
  exact ⟨consistent', readable.brings brings obtains⟩

theorem handleFault (readable : vm.Readable tolerated) (consistent : vm.Consistent fun _ => True)
    (process : ProcessId) (fault : PageFault) :
    (vm.handleFault process fault).Satisfies (fun _ => True) fun (_, after) =>
      after.Readable tolerated := by
  refine .bind (readable.resolveFault consistent process fault) ?_
  rintro ⟨result, after⟩ ⟨_, kept⟩
  cases result with
  | error cause => exact .bind .log fun _ _ => .pure kept
  | ok frame => exact .pure kept

theorem userFrame (readable : vm.Readable tolerated) (consistent : vm.Consistent fun _ => True)
    (process : ProcessId) (address : VirtualAddress) (write : Bool)
    (stackPointer : VirtualAddress) :
    (vm.userFrame process address write stackPointer).Satisfies (fun _ => True) fun (_, after) =>
      after.Readable tolerated := by
  unfold Vm.userFrame
  split
  · exact .pure readable
  · dsimp only
    split
    · rename_i granted
      exact .pure (readable.access consistent granted)
    · refine .bind (readable.resolveFault consistent process _) ?_
      rintro ⟨resolved, after⟩ ⟨consistent', readable'⟩
      cases resolved with
      | error cause => exact .pure readable'
      | ok _ =>
          dsimp only
          split
          · rename_i granted
            exact .pure (readable'.access consistent' granted)
          · exact .pure readable'

theorem storePiece (readable : vm.Readable tolerated) (consistent : vm.Consistent fun _ => True)
    (process : ProcessId) (piece : RangePiece) (source : Bytes) (stackPointer : VirtualAddress) :
    (vm.storePiece process piece source stackPointer).Satisfies (fun _ => True) fun (_, after) =>
      after.Readable tolerated := by
  refine .bind (readable.userFrame consistent process piece.address true stackPointer) ?_
  rintro ⟨result, used⟩ readable'
  cases result with
  | error cause => exact .pure readable'
  | ok frame =>
      have writes : (used.frames.write frame piece.address.offset source).Satisfies
          (fun _ => True) fun frames => frames.extent = used.frames.extent :=
        .bind (.bind .any fun _ _ => .bind .any fun _ _ => .bind .any fun _ _ =>
          FramePool.setBytes_extent _) fun _ same => .pure same
      exact .bind (.lift writes) fun _ same =>
        .pure (readable'.fewer (fun _ _ found => found) same)

theorem fetchPiece (readable : vm.Readable tolerated) (consistent : vm.Consistent fun _ => True)
    (process : ProcessId) (piece : RangePiece) (stackPointer : VirtualAddress) :
    (vm.fetchPiece process piece stackPointer).Satisfies (fun _ => True) fun (_, after) =>
      after.Readable tolerated := by
  refine .bind (readable.userFrame consistent process piece.address false stackPointer) ?_
  rintro ⟨result, used⟩ readable'
  cases result with
  | error cause => exact .pure readable'
  | ok frame => exact .bind (.lift .any) fun _ _ => .pure readable'

theorem copyToUser (readable : vm.Readable tolerated) (consistent : vm.Consistent fun _ => True)
    (process : ProcessId) (address : VirtualAddress) (data : Bytes)
    (stackPointer : VirtualAddress) :
    (vm.copyToUser process address data stackPointer).Satisfies (fun _ => True) fun (_, after) =>
      after.Readable tolerated := by
  unfold Vm.copyToUser
  split
  · refine .mono (writePieces_satisfies (fun _ _ now => now.Readable tolerated)
      (fun _ last => last.Readable tolerated) ?_ ?_ (fun _ readable => readable)
      (RangePiece.tiles_ofRange address data.size) consistent readable) fun _ outcome => outcome.2.2
    · intro start piece rest vm after consistent readable _ _ _ yields _
      exact (readable.storePiece consistent process piece _ stackPointer).of_yields yields
    · intro start piece rest vm after cause consistent readable _ yields _
      exact (readable.storePiece consistent process piece _ stackPointer).of_yields yields
  · exact .pure readable

theorem copyFromUser (readable : vm.Readable tolerated)
    (consistent : vm.Consistent fun _ => True) (process : ProcessId) (address : VirtualAddress)
    (buffer : Bytes) (stackPointer : VirtualAddress) :
    (vm.copyFromUser process address buffer stackPointer).Satisfies (fun _ => True)
      fun (_, _, after) => after.Readable tolerated := by
  unfold Vm.copyFromUser
  split
  · refine .mono (readPieces_satisfies (fun _ _ _ now => now.Readable tolerated)
      (fun _ _ last => last.Readable tolerated) ?_ ?_ (fun _ _ readable => readable) rfl
      (RangePiece.tiles_ofRange address buffer.size) consistent readable)
      fun _ outcome => outcome.2.2
    · intro start piece rest buffer bytes vm after consistent _ readable _ _ _ yields _
      exact (readable.fetchPiece consistent process piece stackPointer).of_yields yields
    · intro start piece rest buffer vm after cause consistent readable yields _
      exact (readable.fetchPiece consistent process piece stackPointer).of_yields yields
  · exact .pure readable

theorem installPage (readable : vm.Readable tolerated) (consistent : vm.Consistent fun _ => True)
    (process : ProcessId) (address : VirtualAddress) (writable : Bool) :
    (vm.installPage process address writable).Satisfies (fun _ => True) fun (_, after) =>
      after.Readable tolerated := by
  refine .mono (.and (installPage_satisfies consistent process address writable)
    (installPage_obtains process address writable)) ?_
  rintro ⟨result, after⟩ ⟨⟨_, _, outcome⟩, extent, reached⟩
  cases result with
  | error cause => exact readable.moves outcome extent
  | ok frame =>
      obtain ⟨_, middle, path, arrival⟩ := outcome
      exact readable.arrives path arrival extent (reached frame rfl)

theorem mapSegment (readable : vm.Readable tolerated) (consistent : vm.Consistent fun _ => True)
    (process : ProcessId) (segment : Segment) :
    (vm.mapSegment process segment).Satisfies (fun _ => True) fun (_, after) =>
      after.Readable tolerated := by
  have installs := (mapSegment_installs consistent.next_unused process segment).weaken
    fun violation _ => (trivial : (fun _ => True) violation)
  refine .mono (.and installs (mapSegment_satisfies consistent fun _ _ _ _ _ _ => trivial)) ?_
  rintro ⟨result, after⟩ ⟨installed, outcome⟩
  cases result with
  | error cause => exact outcome ▸ readable
  | ok id =>
      obtain ⟨_, _, space, placed, _, _, _, rfl⟩ := installed
      obtain ⟨_, _, _, _, mapping, _, _, _, _, _, layout⟩ := outcome
      rintro page frame ⟨entry, found, resident⟩
      rw [layout, Layout.extend_entry] at found
      split at found
      · cases found
        cases resident
      · exact readable page frame ⟨entry, found, resident⟩

theorem createProcess (readable : vm.Readable tolerated) (process : ProcessId) :
    (vm.createProcess process).Satisfies (fun _ => True) fun (_, after) =>
      after.Readable tolerated := by
  unfold Vm.createProcess
  split
  · exact .pure readable
  · rename_i new
    have dead := NumberMap.contains_eq_false.mp (Bool.eq_false_of_not_eq_true new)
    let space : AddressSpace arch := { owner := process, stackBottom := vm.stack.bottomPage }
    have entries : (vm.setSpace process space).entryAt = vm.entryAt :=
      congrArg Layout.entry (Tenants.spawn_layout dead rfl rfl vm.frames.pool.page)
    refine .bind .log fun _ _ => .pure (readable.fewer (fun page entry found => ?_) rfl)
    exact (congrFun entries page).symm.trans found

theorem destroyMapping (readable : vm.Readable tolerated)
    (consistent : vm.Consistent fun _ => True) (process : ProcessId) (id : MappingId) :
    (vm.destroyMapping process id).Satisfies (fun _ => True) fun (_, after) =>
      after.Readable tolerated := by
  have sheds : (vm.destroyMapping process id).Satisfies (fun _ => True) fun (_, after) =>
      vm.Sheds process after := by
    unfold Vm.destroyMapping
    split
    · rename_i mine
      refine .mono (removeMapping_strips fun mapping live => ?_) fun _ => Strips.toSheds
      simpa [live] using mine
    · exact .pure (.refl process vm)
  refine .mono (.and (destroyMapping_satisfies consistent process id) sheds) ?_
  rintro ⟨result, after⟩ ⟨outcome, sheds⟩
  cases result with
  | error cause => exact outcome.1 ▸ readable
  | ok _ => exact readable.fewer outcome.loses.fewer sheds.stores.extent

theorem exitProcess (readable : vm.Readable tolerated) (consistent : vm.Consistent fun _ => True)
    (process : ProcessId) :
    (vm.exitProcess process).Satisfies (fun _ => True) fun (_, after) =>
      after.Readable tolerated := by
  refine .mono (exitProcess_satisfies consistent process).yielding ?_
  rintro ⟨result, after⟩ ⟨yields, outcome⟩
  cases result with
  | error cause => exact outcome.1 ▸ readable
  | ok teardown => exact readable.fewer outcome.loses.fewer (exitProcess_sheds yields).stores.extent

/-- No operation makes a resident page unreadable. -/
theorem step (readable : vm.Readable tolerated) (consistent : vm.Consistent fun _ => True)
    (operation : Operation) :
    (vm.step operation).Satisfies (fun _ => True) fun (_, after) => after.Readable tolerated := by
  cases operation with
  | createProcess process =>
      exact .bind (readable.createProcess process) fun _ kept => .pure kept
  | exitProcess process =>
      exact .bind (readable.exitProcess consistent process) fun _ kept => .pure kept
  | handleFault process fault =>
      exact .bind (readable.handleFault consistent process fault) fun _ kept => .pure kept
  | resolveFault process fault =>
      refine .bind (readable.resolveFault consistent process fault) ?_
      rintro ⟨result, after⟩ ⟨_, kept⟩
      cases result <;> exact .pure kept
  | installPage process address writable =>
      exact .bind (readable.installPage consistent process address writable)
        fun _ kept => .pure kept
  | createMapping process file address length =>
      have creates : (vm.createMapping process file address length).Satisfies (fun _ => True)
          fun (_, after) => after.Readable tolerated := by
        unfold createMapping
        dsimp only
        split
        · exact .pure readable
        · exact readable.mapSegment consistent process _
      exact .bind creates fun _ kept => .pure kept
  | mapSegment process segment =>
      exact .bind (readable.mapSegment consistent process segment) fun _ kept => .pure kept
  | destroyMapping process id =>
      exact .bind (readable.destroyMapping consistent process id) fun _ kept => .pure kept
  | copyToUser process address data stackPointer =>
      exact .bind (readable.copyToUser consistent process address data stackPointer)
        fun _ kept => .pure kept
  | copyFromUser process address buffer stackPointer =>
      exact .bind (readable.copyFromUser consistent process address buffer stackPointer)
        fun _ kept => .pure kept
  | setFailingSectors | setTransferCaps | replaceFile => exact .pure readable

end Readable

/-- In every state, the contents of all resident pages can be read. -/
theorem Reachable.readable (reachable : Reachable vm) : vm.Readable fun _ => False := by
  induction reachable with
  | boot booted =>
      rintro page frame ⟨entry, found, _⟩
      cases (booted.empty.1 page).symm.trans found
  | @step vm after operation answer reachable yields ih =>
      exact (ih.step reachable.consistent operation).of_yields yields

end Vm
end DemandPaging
