import DemandPaging.Proofs.Faults
import DemandPaging.Vm.Copy

/-!
Accesses to user memory. An access makes its page resident, unless a fault is refused, and
reads or writes the frame the page is in. The pieces of a copy follow each other without
gaps, and each lies within one page.
-/

namespace DemandPaging

variable {arch : Architecture} {tolerated : Violation → Prop}

namespace Layout

variable {layout moved : Layout} {page : UserPage} {frame : FrameNumber}

/-- The layout after an access to a resident page, which makes it dirty if it is a write. -/
def use (layout : Layout) (page : UserPage) (write : Bool) : Layout :=
  { layout with dirty := Function.update layout.dirty page (write || layout.dirty page) }

theorem use_read (layout : Layout) (page : UserPage) : layout.use page false = layout := by
  unfold use
  rw [Bool.false_or, Function.update_eq_self]

theorem use_dirty (layout : Layout) (page other : UserPage) (write : Bool) :
    (layout.use page write).dirty other =
      if other = page then write || layout.dirty page else layout.dirty other :=
  Function.update_apply _ _ _ _

/-- The frame is the page's, and the access is allowed. -/
def Grants (layout : Layout) (page : UserPage) (frame : FrameNumber) (write : Bool) : Prop :=
  ∃ entry, layout.entry page = some entry ∧ entry.backing = .frame frame ∧
    (write = true → entry.writable = true)

end Layout

/-- A page is resident already, or is not and is brought into a frame after others have
moved. -/
inductive Reach (page : UserPage) (layout : Layout) : Layout → Prop
  | here : Reach page layout layout
  | brought (middle : Layout) (frame : FrameNumber) (moved : Layout)
      (path : Relation.ReflTransGen Shift layout middle)
      (arrival : Arrival page frame middle moved)
      (away : layout.resident page = false) : Reach page layout moved

theorem Layout.Sound.reach {page : UserPage} {layout moved : Layout}
    (sound : layout.Sound tolerated) (reach : Reach page layout moved) :
    moved.Sound tolerated := by
  cases reach with
  | here => exact sound
  | brought middle frame moved path arrival => exact (sound.moves path).arrive arrival

theorem Reach.role {page other : UserPage} {layout moved : Layout}
    (reach : Reach page layout moved) (known : (layout.entry other).isSome) :
    moved.role other = layout.role other := by
  cases reach with
  | here => rfl
  | brought middle frame moved path arrival =>
      have same := Layout.role_of_moves path other
      refine (Layout.role_of_arrival arrival ?_).trans same
      rwa [← Layout.role_isSome, same, Layout.role_isSome]

theorem Reach.mapping {page : UserPage} {layout moved : Layout}
    (reach : Reach page layout moved) : moved.mapping = layout.mapping := by
  cases reach with
  | here => rfl
  | brought middle frame moved path arrival =>
      exact (Layout.mapping_of_arrival arrival).trans (Layout.mapping_of_moves path)

/-- A piece has been stored: the bytes of its page's frame are overwritten, and the page is
dirty. -/
def Stored (process : ProcessId) (piece : RangePiece) (source : Bytes)
    (layout moved : Layout) : Prop :=
  ∃ middle frame, Reach (process, piece.address.page) layout middle ∧
    middle.Grants (process, piece.address.page) frame true ∧
    moved = (middle.use (process, piece.address.page) true).fillFrame frame
      ((middle.frame frame).overwrite piece.address.offset source)

/-- A piece has been fetched from the frame of its page. -/
def Fetched (process : ProcessId) (piece : RangePiece) (bytes : Bytes)
    (layout moved : Layout) : Prop :=
  ∃ frame, Reach (process, piece.address.page) layout moved ∧
    moved.Grants (process, piece.address.page) frame false ∧
    bytes = (moved.frame frame).slice piece.address.offset piece.length

namespace Tenants

variable {tenants : Tenants arch} {process : ProcessId} {space : AddressSpace arch}
  {page : PageNumber}

theorem use_layout (found : tenants.spaces[process]? = some space)
    {directory : PageDirectory arch} {write : Bool}
    (dirty : ∀ other, directory.isDirty other =
      if other = page then write || space.directory.isDirty page
      else space.directory.isDirty other) (contents : FrameNumber → Page) :
    (tenants.setSpace process { space with directory }).layout contents =
      (tenants.layout contents).use (process, page) write := by
  refine Layout.ext (setSpace_live found) (redirect_entryAt found directory)
    (funext fun other => ?_) rfl rfl rfl rfl
  rw [Layout.use_dirty]
  refine (redirect_dirtyAt tenants process space directory other).trans ?_
  obtain ⟨owner, number⟩ := other
  by_cases own : owner = process
  · subst own
    rw [if_pos rfl, dirty]
    change _ = if (owner, number) = (owner, page) then write || tenants.dirtyAt (owner, page)
      else tenants.dirtyAt (owner, number)
    rw [dirtyAt_of_space found, dirtyAt_of_space found]
    simp
  · rw [if_neg own, if_neg fun same => own (congrArg Prod.fst same)]
    rfl

end Tenants

namespace Vm

variable {vm after : Vm arch} {process : ProcessId} {page : PageNumber} {write : Bool}

/-- An access is carried out exactly where the page's entry grants it. -/
theorem access?_spec (consistent : vm.Consistent tolerated) (process : ProcessId)
    (page : PageNumber) (write : Bool) :
    match vm.access? process page write with
    | some (frame, after) => vm.layout.Grants (process, page) frame write ∧
        after.stack = vm.stack ∧ after.Consistent tolerated ∧
          after.frames = vm.frames ∧ after.layout = vm.layout.use (process, page) write
    | none => ∀ frame, ¬vm.layout.Grants (process, page) frame write := by
  unfold access?
  cases found : vm.spaces[process]? with
  | none =>
      rintro frame ⟨entry, present, _⟩
      obtain ⟨space, alive, _⟩ := Tenants.space_of_entryAt present
      exact absurd (found.symm.trans alive) (by simp)
  | some space =>
      have listed : vm.layout.entry (process, page) = space.entries[page]? :=
        Tenants.entryAt_of_space found page
      have coherent := (consistent.tenants.spaces process space found).2
      by_cases granted : ∃ frame, vm.layout.Grants (process, page) frame write
      · obtain ⟨frame, entry, present, resident, allowed⟩ := granted
        have route := coherent.route_eq_some (listed.symm.trans present) resident
        obtain ⟨used, routes, dirty⟩ := PageDirectory.recordAccess_of_allowed route allowed
        have layout := Tenants.use_layout found dirty vm.frames.pool.page
        simp only [Option.bind_eq_bind, Option.bind_some, used]
        exact ⟨⟨entry, present, resident, allowed⟩, rfl,
          ⟨consistent.frames, consistent.tenants.redirect found routes⟩, rfl, layout⟩
      · have refused : space.directory.recordAccess page write = (none, space.directory) := by
          cases resident : space.entries[page]?.bind PageEntry.frame? with
          | none =>
              refine PageDirectory.recordAccess_of_unmapped (coherent.route_eq_none ?_) write
              intro entry present
              rw [present] at resident
              simpa [PageEntry.isResident] using resident
          | some frame =>
              obtain ⟨entry, present, source⟩ := Option.bind_eq_some_iff.mp resident
              rw [PageEntry.frame?_eq_some] at source
              have route := coherent.route_eq_some present source
              have readOnly : write = true ∧ entry.writable = false := by
                by_contra allowed
                refine granted ⟨frame, entry, listed.trans present, source, fun storing => ?_⟩
                simpa [storing] using allowed
              rw [readOnly.2] at route
              rw [readOnly.1]
              exact PageDirectory.recordAccess_of_readOnly route
        simp only [Option.bind_eq_bind, Option.bind_some, refused]
        exact fun frame grants => granted ⟨frame, grants⟩

/-- A user access is refused after pages have moved at most, or is carried out on a page that
is resident by then. -/
theorem userFrame_satisfies (consistent : vm.Consistent tolerated) (process : ProcessId)
    (address : VirtualAddress) (write : Bool) (stackPointer : VirtualAddress) :
    (vm.userFrame process address write stackPointer).Satisfies tolerated fun (result, after) =>
      after.stack = vm.stack ∧ after.Consistent tolerated ∧
        match result with
        | .error _ => Relation.ReflTransGen Shift vm.layout after.layout
        | .ok frame => ∃ middle, Reach (process, address.page) vm.layout middle ∧
            middle.Grants (process, address.page) frame write ∧
              after.layout = middle.use (process, address.page) write := by
  unfold userFrame
  split
  · exact .pure ⟨rfl, consistent, .refl⟩
  · have first := access?_spec consistent process address.page write
    cases access : vm.access? process address.page write with
    | some answer =>
        obtain ⟨frame, after⟩ := answer
        rw [access] at first
        obtain ⟨grants, stack, consistent', _, layout⟩ := first
        exact .pure ⟨stack, consistent', vm.layout, .here, grants, layout⟩
    | none =>
        rw [access] at first
        refine .bind (resolveFault_satisfies consistent ?_) ?_
        · intro entry present resident allowed
          obtain ⟨frame, source⟩ := Option.isSome_iff_exists.mp resident
          exact absurd ⟨entry, present, PageEntry.frame?_eq_some.mp source, allowed⟩ (first frame)
        · rintro ⟨result, faulted⟩ ⟨stack, consistent', brings, allowed⟩
          cases result with
          | error cause => exact .pure ⟨stack, consistent', brings⟩
          | ok frame =>
              obtain ⟨away, ⟨middle, path, arrival⟩, entry, present, source, permission⟩ := brings
              have grants : faulted.layout.Grants (process, address.page) frame write := by
                refine ⟨entry, present, source, fun storing => ?_⟩
                rw [permission]
                exact allowed frame rfl storing
              have again := access?_spec consistent' process address.page write
              dsimp only
              cases access' : faulted.access? process address.page write with
              | none =>
                  rw [access'] at again
                  exact absurd grants (again frame)
              | some answer =>
                  obtain ⟨used, after⟩ := answer
                  rw [access'] at again
                  obtain ⟨grants', stack', consistent'', _, layout⟩ := again
                  exact .pure ⟨stack'.trans stack, consistent'', faulted.layout,
                    .brought middle frame _ path arrival away, grants', layout⟩

theorem Consistent.tracked_of_grants (consistent : vm.Consistent tolerated)
    {frame : FrameNumber} (backs : vm.layout.Backs (process, page) (.frame frame)) :
    ∃ ring, vm.frames.WellFormed tolerated ring ∧ vm.frames.pool.contains frame := by
  obtain ⟨ring, wellFormed, _⟩ := consistent.frames
  exact ⟨ring, wellFormed, wellFormed.inside_of_tracked (FrameTable.mem_of_ownerOf
    ((consistent.tenants.owners frame (process, page)).mpr backs))⟩

theorem Consistent.refill (consistent : vm.Consistent tolerated) (frame : FrameNumber)
    (contents : Page) :
    ({ vm with frames := vm.frames.refill frame contents } : Vm arch).Consistent tolerated ∧
      ({ vm with frames := vm.frames.refill frame contents } : Vm arch).layout =
        vm.layout.fillFrame frame contents := by
  obtain ⟨⟨ring, wellFormed, settled⟩, tenants⟩ := consistent
  refine ⟨⟨⟨ring, wellFormed.refill contents, settled⟩, tenants⟩, ?_⟩
  change vm.toTenants.layout (vm.frames.refill frame contents).pool.page = _
  rw [FrameTable.refill_page]
  rfl

theorem storePiece_satisfies (consistent : vm.Consistent tolerated) (process : ProcessId)
    (piece : RangePiece) (source : Bytes) (stackPointer : VirtualAddress)
    (fits : piece.address.offset + source.size ≤ pageSize) :
    (vm.storePiece process piece source stackPointer).Satisfies tolerated
      fun (result, after) => after.stack = vm.stack ∧ after.Consistent tolerated ∧
        match result with
        | .error _ => Relation.ReflTransGen Shift vm.layout after.layout
        | .ok () => Stored process piece source vm.layout after.layout := by
  unfold storePiece
  refine .bind (userFrame_satisfies consistent process piece.address true stackPointer) ?_
  rintro ⟨result, used⟩ ⟨stack, consistent', outcome⟩
  cases result with
  | error cause => exact .pure ⟨stack, consistent', outcome⟩
  | ok frame =>
      obtain ⟨middle, reach, grants, layout⟩ := outcome
      have backs : used.layout.Backs (process, piece.address.page) (.frame frame) := by
        obtain ⟨entry, present, resident, _⟩ := grants
        rw [layout]
        exact ⟨entry, present, resident⟩
      obtain ⟨ring, wellFormed, inside⟩ := consistent'.tracked_of_grants backs
      refine .bind (.lift (FrameTable.write_satisfies wellFormed inside fits)) ?_
      rintro _ rfl
      obtain ⟨consistent'', filled⟩ := consistent'.refill frame
        ((used.frames.pool.page frame).overwrite piece.address.offset source)
      refine .pure ⟨stack, consistent'', middle, frame, reach, grants, ?_⟩
      have contents : used.frames.pool.page = middle.frame := congrArg Layout.frame layout
      rw [contents, layout] at filled
      rw [contents]
      exact filled

theorem fetchPiece_satisfies (consistent : vm.Consistent tolerated) (process : ProcessId)
    (piece : RangePiece) (stackPointer : VirtualAddress)
    (fits : piece.address.offset + piece.length ≤ pageSize) :
    (vm.fetchPiece process piece stackPointer).Satisfies tolerated fun (result, after) =>
      after.stack = vm.stack ∧ after.Consistent tolerated ∧
        match result with
        | .error _ => Relation.ReflTransGen Shift vm.layout after.layout
        | .ok bytes => Fetched process piece bytes vm.layout after.layout := by
  unfold fetchPiece
  refine .bind (userFrame_satisfies consistent process piece.address false stackPointer) ?_
  rintro ⟨result, used⟩ ⟨stack, consistent', outcome⟩
  cases result with
  | error cause => exact .pure ⟨stack, consistent', outcome⟩
  | ok frame =>
      obtain ⟨middle, reach, grants, layout⟩ := outcome
      rw [Layout.use_read] at layout
      subst layout
      obtain ⟨entry, present, resident, _⟩ := id grants
      obtain ⟨ring, wellFormed, inside⟩ :=
        consistent'.tracked_of_grants ⟨entry, present, resident⟩
      refine .bind (.lift (FrameTable.read_satisfies wellFormed inside fits)) ?_
      rintro bytes rfl
      exact .pure ⟨stack, consistent', frame, reach, grants, rfl⟩

end Vm

namespace RangePiece

/-- The pieces cover the bytes of a range from `start` to `stop`, in order and without gaps,
each within a page. -/
inductive Tiles (base : VirtualAddress) (stop : Nat) : Nat → List RangePiece → Prop
  | done : Tiles base stop stop []
  | next {start : Nat} {piece : RangePiece} {rest : List RangePiece}
      (place : piece.address.value = base.value + start)
      (fits : piece.address.offset + piece.length ≤ pageSize)
      (tiles : Tiles base stop (start + piece.length) rest) : Tiles base stop start (piece :: rest)

theorem Tiles.start_le {base : VirtualAddress} {stop start : Nat} {pieces : List RangePiece}
    (tiles : Tiles base stop start pieces) : start ≤ stop := by
  induction tiles with
  | done => exact Nat.le_refl stop
  | next place fits tiles ih => omega

private theorem tiles_from {base address : VirtualAddress} {start length : Nat}
    (place : address.value = base.value + start) :
    Tiles base (start + length) start (ofRange address length) := by
  fun_induction ofRange address length generalizing start with
  | case1 address => exact .done
  | case2 =>
      rename_i address length some_left chunk ih
      have inside : address.offset < pageSize := Nat.mod_lt _ (by decide)
      have rest := ih (show address.value + chunk = base.value + (start + chunk) by omega)
      rw [show start + chunk + (length - chunk) = start + length by omega] at rest
      refine .next place ?_ rest
      change address.offset + chunk ≤ pageSize
      omega

/-- The pieces of a range cover it. -/
theorem tiles_ofRange (address : VirtualAddress) (length : Nat) :
    Tiles address length 0 (ofRange address length) := by
  have tiles : Tiles address (0 + length) 0 (ofRange address length) := tiles_from rfl
  rwa [Nat.zero_add] at tiles

theorem ofRange_within {address : VirtualAddress} {length : Nat} (positive : 0 < length)
    (fits : address.offset + length ≤ pageSize) : ofRange address length = [⟨address, length⟩] := by
  have whole : min (pageSize - address.offset) length = length := by omega
  rw [ofRange, if_neg (Nat.ne_of_gt positive)]
  simp only [whole, Nat.sub_self]
  rw [ofRange, if_pos rfl]

theorem opens_of_mem_ofRange {address : VirtualAddress} {length : Nat} {piece : RangePiece}
    (member : piece ∈ ofRange address length) :
    0 < piece.length ∧ (∃ i, i < length ∧ piece.address = ⟨address.value + i⟩) ∧
      (piece.address = address ∨ piece.address.offset = 0) := by
  fun_induction ofRange address length with
  | case1 address => cases member
  | case2 =>
      rename_i address length some_left chunk ih
      have inside : address.offset < pageSize := Nat.mod_lt _ (by decide)
      rcases List.mem_cons.mp member with rfl | later
      · exact ⟨show 0 < chunk by omega, ⟨0, by omega, rfl⟩, .inl rfl⟩
      · obtain ⟨positive, ⟨i, small, place⟩, opens⟩ := ih later
        refine ⟨positive, ⟨chunk + i, by omega, ?_⟩, .inr ?_⟩
        · rw [place, ← Nat.add_assoc]
        · refine opens.elim (fun first => ?_) id
          -- what is left of a range starts at the end of a page
          have more : chunk < length := by omega
          have whole : chunk = pageSize - address.offset := by omega
          rw [first]
          unfold Address.offset at *
          simp only [pageSize] at *
          omega

variable {base : VirtualAddress} {piece : RangePiece} {start i : Nat}

theorem place_of_mem (place : piece.address.value = base.value + start)
    (fits : piece.address.offset + piece.length ≤ pageSize) (above : start ≤ i)
    (below : i < start + piece.length) :
    (⟨base.value + i⟩ : VirtualAddress).page = piece.address.page ∧
      (⟨base.value + i⟩ : VirtualAddress).offset = piece.address.offset + (i - start) := by
  unfold Address.offset at fits ⊢
  unfold Address.page
  rw [Number.ext_iff]
  simp only [pageSize] at fits ⊢
  omega

theorem offset_lt (place : piece.address.value = base.value + start) (before : i < start)
    (same : (⟨base.value + i⟩ : VirtualAddress).page = piece.address.page) :
    (⟨base.value + i⟩ : VirtualAddress).offset < piece.address.offset := by
  unfold Address.page at same
  unfold Address.offset
  rw [Number.ext_iff] at same
  simp only [pageSize] at same ⊢
  omega

end RangePiece

namespace Vm

variable {vm : Vm arch} {process : ProcessId} {base stackPointer : VirtualAddress}

/-- A copy into user memory, piece by piece: what each stored piece keeps, and what is left
when a piece is refused or none is left to store. -/
theorem writePieces_satisfies {data : Bytes} (invariant : Nat → List RangePiece → Vm arch → Prop)
    (post : Nat → Vm arch → Prop)
    (stored : ∀ start piece rest (vm after : Vm arch), vm.Consistent tolerated →
      invariant start (piece :: rest) vm → piece.address.value = base.value + start →
      piece.address.offset + piece.length ≤ pageSize → start + piece.length ≤ data.size →
      (vm.storePiece process piece (data.extract start (start + piece.length))
        stackPointer).Yields (.ok (), after) →
      Stored process piece (data.extract start (start + piece.length)) vm.layout after.layout →
        invariant (start + piece.length) rest after)
    (refused : ∀ start piece rest (vm after : Vm arch) cause, vm.Consistent tolerated →
      invariant start (piece :: rest) vm → piece.address.value = base.value + start →
      (vm.storePiece process piece (data.extract start (start + piece.length))
        stackPointer).Yields (.error cause, after) →
      Relation.ReflTransGen Shift vm.layout after.layout → post start after)
    (done : ∀ vm : Vm arch, invariant data.size [] vm → post data.size vm)
    {pieces : List RangePiece} {start : Nat}
    (tiles : RangePiece.Tiles base data.size start pieces) (consistent : vm.Consistent tolerated)
    (holds : invariant start pieces vm) :
    (writePieces process base data stackPointer vm pieces).Satisfies tolerated
      fun (outcome, after) => after.stack = vm.stack ∧ after.Consistent tolerated ∧
        post outcome.copied after := by
  induction tiles generalizing vm with
  | done => exact .pure ⟨rfl, consistent, done vm holds⟩
  | @next start piece rest place fits tiles ih =>
      have within := tiles.start_le
      have origin : piece.address.value - base.value = start := by omega
      unfold writePieces
      simp only [origin]
      refine .bind (storePiece_satisfies consistent process piece
        (data.extract start (start + piece.length)) stackPointer ?_).yielding ?_
      · rw [Array.size_extract]
        omega
      · rintro ⟨result, after⟩ ⟨yields, stack, consistent', outcome⟩
        cases result with
        | error cause =>
            exact .pure ⟨stack, consistent', refused start piece rest vm after cause consistent
              holds place yields outcome⟩
        | ok _ =>
            have holds' := stored start piece rest vm after consistent holds place fits within
              yields outcome
            refine .mono (ih consistent' holds') ?_
            rintro ⟨outcome, last⟩ ⟨stack', rest⟩
            exact ⟨stack'.trans stack, rest⟩

theorem readPieces_satisfies {size : Nat}
    (invariant : Nat → List RangePiece → Bytes → Vm arch → Prop)
    (post : Nat → Bytes → Vm arch → Prop)
    (fetched : ∀ start piece rest (buffer : Bytes) bytes (vm after : Vm arch),
      vm.Consistent tolerated → buffer.size = size → invariant start (piece :: rest) buffer vm →
      piece.address.value = base.value + start →
      piece.address.offset + piece.length ≤ pageSize → start + piece.length ≤ size →
      (vm.fetchPiece process piece stackPointer).Yields (.ok bytes, after) →
      Fetched process piece bytes vm.layout after.layout →
        invariant (start + piece.length) rest (buffer.overwrite start bytes) after)
    (refused : ∀ start piece rest buffer (vm after : Vm arch) cause, vm.Consistent tolerated →
      invariant start (piece :: rest) buffer vm →
      (vm.fetchPiece process piece stackPointer).Yields (.error cause, after) →
      Relation.ReflTransGen Shift vm.layout after.layout → post start buffer after)
    (done : ∀ buffer (vm : Vm arch), invariant size [] buffer vm → post size buffer vm)
    {pieces : List RangePiece} {start : Nat} {buffer : Bytes} (full : buffer.size = size)
    (tiles : RangePiece.Tiles base size start pieces) (consistent : vm.Consistent tolerated)
    (holds : invariant start pieces buffer vm) :
    (readPieces process base buffer stackPointer vm pieces).Satisfies tolerated
      fun (outcome, filled, after) => after.stack = vm.stack ∧ after.Consistent tolerated ∧
        post outcome.copied filled after := by
  induction tiles generalizing vm buffer with
  | done =>
      refine .pure ⟨rfl, consistent, ?_⟩
      rw [full]
      exact done buffer vm holds
  | @next start piece rest place fits tiles ih =>
      have within := tiles.start_le
      have origin : piece.address.value - base.value = start := by omega
      unfold readPieces
      simp only [origin]
      refine .bind (fetchPiece_satisfies consistent process piece stackPointer fits).yielding ?_
      rintro ⟨result, after⟩ ⟨yields, stack, consistent', outcome⟩
      cases result with
      | error cause =>
          exact .pure ⟨stack, consistent', refused start piece rest buffer vm after cause
            consistent holds yields outcome⟩
      | ok bytes =>
          have holds' := fetched start piece rest buffer bytes vm after consistent full holds place
            fits within yields outcome
          have full' : (buffer.overwrite start bytes).size = size := by
            rw [Bytes.size_overwrite, full]
          refine .mono (ih full' consistent' holds') ?_
          rintro ⟨outcome, filled, last⟩ ⟨stack', rest⟩
          exact ⟨stack'.trans stack, rest⟩

theorem readPieces_copied {pieces : List RangePiece} {buffer filled : Bytes}
    {outcome : CopyOutcome} {after : Vm arch}
    (yields : (readPieces process base buffer stackPointer vm pieces).Yields
      (outcome, filled, after)) (done : outcome.result.isOk = true) :
    outcome.copied = buffer.size := by
  induction pieces generalizing vm buffer with
  | nil =>
      cases yields
      rfl
  | cons piece rest ih =>
      unfold readPieces at yields
      obtain ⟨⟨result, fetched⟩, _, yields⟩ := Run.yields_bind.mp yields
      cases result with
      | error cause =>
          cases yields
          cases done
      | ok bytes => exact (ih yields).trans (Bytes.size_overwrite buffer _ bytes)

theorem copyFromUser_copied {address : VirtualAddress} {buffer filled : Bytes}
    {outcome : CopyOutcome} {after : Vm arch}
    (yields : (vm.copyFromUser process address buffer stackPointer).Yields
      (outcome, filled, after)) (done : outcome.result.isOk = true) :
    outcome.copied = buffer.size := by
  unfold copyFromUser at yields
  split at yields
  · exact readPieces_copied yields done
  · cases yields
    cases done

end Vm
end DemandPaging
