import DemandPaging.Proofs.Backed

/-!
Mapped files are written back exactly. What a region holds is followed beside the machine:
at first the bytes of its file, and from then on those that are copied to it. Copies from it
return these bytes, and when the mapping has gone the file has them.
-/

namespace DemandPaging

variable {arch : Architecture} {tolerated : Violation → Prop}

namespace Mapping

variable {mapping : Mapping} {image : Nat → UInt8} {process : ProcessId}
  {address : VirtualAddress} {data : Bytes} {index : Nat}

/-- The region holds `image`, byte by byte, and the first `count` bytes of `data` are stored at
an address of a process. -/
def overlay (mapping : Mapping) (image : Nat → UInt8) (process : ProcessId)
    (address : VirtualAddress) (data : Bytes) (count : Nat) : Nat → UInt8 := fun index =>
  let place := mapping.segment.address.value + index
  if process = mapping.owner ∧ address.value ≤ place ∧ place < address.value + count then
    data.getD (place - address.value) 0
  else
    image index

theorem overlay_zero : mapping.overlay image process address data 0 = image := by
  funext index
  unfold overlay
  rw [if_neg]
  omega

theorem address_eq (aligned : mapping.segment.address.offset = 0) (index : Nat) :
    mapping.segment.address.value + index =
      (mapping.bytePage index).value * pageSize + index % pageSize := by
  unfold Address.offset at aligned
  unfold bytePage base Address.page
  simp only [pageSize] at aligned ⊢
  omega

theorem covered_iff (aligned : mapping.segment.address.offset = 0) {piece : RangePiece}
    (fits : piece.address.offset + piece.length ≤ pageSize) :
    Layout.Covered mapping (process, piece.address.page) piece.address.offset piece.length index ↔
      process = mapping.owner ∧ piece.address.value ≤ mapping.segment.address.value + index ∧
        mapping.segment.address.value + index < piece.address.value + piece.length := by
  have place := address_eq aligned index
  unfold Address.offset at fits
  constructor
  · rintro ⟨same, inside⟩
    obtain ⟨own, page⟩ := Prod.mk.inj same
    rw [page] at place
    unfold Address.offset at inside
    unfold Address.page at place
    simp only [pageSize] at place fits inside
    exact ⟨own.symm, by omega, by omega⟩
  · rintro ⟨own, inside⟩
    refine ⟨Prod.ext own.symm (Number.ext ?_), ?_⟩
    · unfold userPage Address.page
      simp only [pageSize] at place fits ⊢
      omega
    · unfold Address.offset
      simp only [pageSize] at place fits ⊢
      omega

theorem overlay_covered (aligned : mapping.segment.address.offset = 0) {piece : RangePiece}
    {start : Nat} (place : piece.address.value = address.value + start)
    (fits : piece.address.offset + piece.length ≤ pageSize)
    (within : start + piece.length ≤ data.size)
    (covered : Layout.Covered mapping (process, piece.address.page) piece.address.offset
      piece.length index) :
    (data.extract start (start + piece.length))[index % pageSize - piece.address.offset]? =
      some (mapping.overlay image process address data (start + piece.length) index) := by
  obtain ⟨own, above, below⟩ := (covered_iff aligned fits).mp covered
  obtain ⟨here, offset, small⟩ := covered
  have known := address_eq aligned index
  have page : mapping.bytePage index = piece.address.page := congrArg Prod.snd here
  have distance : mapping.segment.address.value + index - address.value =
      start + (index % pageSize - piece.address.offset) := by
    rw [page] at known
    unfold Address.offset at offset ⊢
    unfold Address.page at known
    simp only [pageSize] at known offset ⊢
    omega
  unfold overlay
  rw [if_pos ⟨own, by omega, by omega⟩, distance, Array.getElem?_extract, if_pos (by omega),
    Array.getD_eq_getD_getElem?, Array.getElem?_eq_getElem (by omega), Option.getD_some]

theorem overlay_others (aligned : mapping.segment.address.offset = 0) {piece : RangePiece}
    {start : Nat} (place : piece.address.value = address.value + start)
    (fits : piece.address.offset + piece.length ≤ pageSize)
    (outside : ¬Layout.Covered mapping (process, piece.address.page) piece.address.offset
      piece.length index) :
    mapping.overlay image process address data (start + piece.length) index =
      mapping.overlay image process address data start index := by
  rw [covered_iff aligned fits, not_and] at outside
  unfold overlay
  refine if_congr (and_congr_right fun own => ?_) rfl rfl
  have beyond := outside own
  omega

/-- The bytes of a range up to `stop` that are of the region are in the buffer as `image` has
them. -/
def Fills (mapping : Mapping) (image : Nat → UInt8) (address : VirtualAddress) (buffer : Bytes)
    (stop : Nat) : Prop :=
  ∀ i index, i < stop → index < mapping.segment.fileLength →
    address.value + i = mapping.segment.address.value + index → buffer[i]? = some (image index)

/-- What the region holds after an operation with this answer. -/
def imageAfter (mapping : Mapping) (image : Nat → UInt8) :
    Vm.Operation → Vm.Answer → Nat → UInt8
  | .copyToUser process address data _, .stored outcome =>
    mapping.overlay image process address data outcome.copied
  | _, _ => image

theorem imageAfter_stored (stackPointer : VirtualAddress) (outcome : Vm.CopyOutcome) :
    mapping.imageAfter image (.copyToUser process address data stackPointer) (.stored outcome) =
      mapping.overlay image process address data outcome.copied := rfl

theorem imageAfter_of_quiet {operation : Vm.Operation} (quiet : ¬operation.IsCopy)
    (answer : Vm.Answer) : mapping.imageAfter image operation answer = image := by
  cases operation with
  | copyToUser | copyFromUser => exact absurd trivial quiet
  | _ => rfl

end Mapping

namespace Vm

variable {vm after : Vm arch} {mapping : Mapping} {original : Bytes} {image : Nat → UInt8}
  {file : FileId}

theorem copyToUser_keeps (keeps : vm.layout.Keeps mapping original image)
    (aligned : mapping.segment.address.offset = 0) (consistent : vm.Consistent tolerated)
    (process : ProcessId) (address : VirtualAddress) (data : Bytes)
    (stackPointer : VirtualAddress) :
    (vm.copyToUser process address data stackPointer).Satisfies tolerated
      fun (outcome, after) => after.layout.Keeps mapping original
        (mapping.overlay image process address data outcome.copied) := by
  unfold copyToUser
  split
  · have start : vm.layout.Keeps mapping original
        (mapping.overlay image process address data 0) := by
      rwa [Mapping.overlay_zero]
    refine .mono (writePieces_satisfies
      (fun start _ now => now.layout.Keeps mapping original
        (mapping.overlay image process address data start))
      (fun count last => last.layout.Keeps mapping original
        (mapping.overlay image process address data count))
      ?_ ?_ (fun _ holds => holds) (RangePiece.tiles_ofRange address data.size) consistent start)
      fun _ h => h.2.2
    · rintro start piece rest now after consistent holds place fits within _
        ⟨middle, frame, reach, grants, layout⟩
      have sound : now.layout.Sound tolerated := consistent.tenants.sound _
      have size : (data.extract start (start + piece.length)).size = piece.length := by
        rw [Array.size_extract]
        omega
      rw [layout]
      refine (holds.reach sound reach).write (sound.reach reach) grants ?_ ?_
      · intro index covered
        rw [size] at covered
        exact Mapping.overlay_covered aligned place fits within covered
      · intro index outside
        rw [size] at outside
        exact Mapping.overlay_others aligned place fits outside
    · rintro start piece rest now after cause consistent holds _ _ path
      exact holds.moves (consistent.tenants.sound _) path
  · refine .pure ?_
    change vm.layout.Keeps mapping original (mapping.overlay image process address data 0)
    rwa [Mapping.overlay_zero]

theorem fills_of_fetched {layout moved : Layout} {address : VirtualAddress} {buffer bytes : Bytes}
    {start : Nat} {piece : RangePiece} (before : mapping.Fills image address buffer start)
    (aligned : mapping.segment.address.offset = 0)
    (fetched : Fetched mapping.owner piece bytes layout moved)
    (keeps : moved.Keeps mapping original image)
    (place : piece.address.value = address.value + start)
    (fits : piece.address.offset + piece.length ≤ pageSize)
    (within : start + piece.length ≤ buffer.size) :
    mapping.Fills image address (buffer.overwrite start bytes) (start + piece.length) := by
  obtain ⟨frame, _, ⟨entry, present, resident, _⟩, taken⟩ := fetched
  have size : bytes.size = piece.length := by
    rw [taken]
    exact Page.size_slice _ fits
  intro i index small inside same
  by_cases earlier : i < start
  · rw [Bytes.getElem?_overwrite, if_neg (by omega)]
    exact before i index earlier inside same
  · have covered : Layout.Covered mapping (mapping.owner, piece.address.page)
        piece.address.offset piece.length index :=
      (Mapping.covered_iff aligned fits).mpr ⟨rfl, by omega, by omega⟩
    obtain ⟨here, above, _⟩ := covered
    have known := Mapping.address_eq aligned index
    have distance : piece.address.offset + (i - start) = index % pageSize := by
      rw [show mapping.bytePage index = piece.address.page from congrArg Prod.snd here] at known
      unfold Address.offset at above ⊢
      unfold Address.page at known
      simp only [pageSize] at known above ⊢
      omega
    rw [Bytes.getElem?_overwrite, if_pos (by omega), taken, Page.getElem?_slice _ _ (by omega),
      distance]
    refine (keeps.backed.shows index inside).framed frame ?_
    rw [here]
    exact ⟨entry, present, resident⟩

theorem copyFromUser_keeps (keeps : vm.layout.Keeps mapping original image)
    (aligned : mapping.segment.address.offset = 0) (consistent : vm.Consistent tolerated)
    (process : ProcessId) (address : VirtualAddress) (buffer : Bytes)
    (stackPointer : VirtualAddress) :
    (vm.copyFromUser process address buffer stackPointer).Satisfies tolerated
      fun (outcome, filled, after) => after.layout.Keeps mapping original image ∧
        (process = mapping.owner → mapping.Fills image address filled outcome.copied) := by
  unfold copyFromUser
  split
  · refine .mono (readPieces_satisfies
      (fun start _ filled now => now.layout.Keeps mapping original image ∧
        (process = mapping.owner → mapping.Fills image address filled start))
      (fun count filled last => last.layout.Keeps mapping original image ∧
        (process = mapping.owner → mapping.Fills image address filled count))
      ?_ ?_ (fun _ _ holds => holds) rfl (RangePiece.tiles_ofRange address buffer.size) consistent
      ⟨keeps, fun _ i index small => absurd small (Nat.not_lt_zero i)⟩) fun _ h => h.2.2
    · rintro start piece rest filled bytes now after consistent full ⟨keeps, holds⟩ place fits
        within _ fetched
      have keeps' : after.layout.Keeps mapping original image := by
        obtain ⟨_, reach, _⟩ := fetched
        exact keeps.reach (consistent.tenants.sound _) reach
      refine ⟨keeps', ?_⟩
      rintro rfl
      exact fills_of_fetched (holds rfl) aligned fetched keeps' place fits (full ▸ within)
    · rintro start piece rest filled now after cause consistent ⟨keeps, holds⟩ _ path
      exact ⟨keeps.moves (consistent.tenants.sound _) path, holds⟩
  · exact .pure ⟨keeps, fun _ i index small => absurd small (Nat.not_lt_zero i)⟩

theorem created_of_yields (consistent : vm.Consistent fun _ => True) {operation : Operation}
    {id : MappingId} (yields : (vm.step operation).Yields (.mapping id, after)) :
    ∃ mapping : Mapping, mapping.id = id ∧ mapping.segment.address.offset = 0 ∧
      after.layout = vm.layout.extend mapping := by
  have mapped : ∀ process segment result, (vm.mapSegment process segment).Yields (result, after) →
      result = .ok id → ∃ mapping : Mapping, mapping.id = id ∧
        mapping.segment.address.offset = 0 ∧ after.layout = vm.layout.extend mapping := by
    rintro process segment _ yields rfl
    obtain ⟨_, _, _, ⟨length, accepted⟩, mapping, named, _, rfl, _, _, layout⟩ :=
      (mapSegment_satisfies consistent fun _ _ _ _ _ _ => trivial).of_yields yields
    exact ⟨mapping, named, (mappableLength_eq_ok accepted).2.2.1, layout⟩
  cases operation with
  | mapSegment process segment =>
      obtain ⟨⟨result, last⟩, ran, rest⟩ := Run.yields_bind.mp yields
      cases result with
      | error cause => cases rest
      | ok made =>
          cases rest
          exact mapped process segment _ ran rfl
  | createMapping process file address length =>
      obtain ⟨⟨result, last⟩, ran, rest⟩ := Run.yields_bind.mp yields
      cases result with
      | error cause => cases rest
      | ok made =>
          cases rest
          unfold createMapping at ran
          dsimp only at ran
          split at ran
          · cases ran
          · exact mapped _ _ _ ran rfl
  | createProcess | exitProcess | installPage | destroyMapping | resolveFault =>
      obtain ⟨⟨result, last⟩, _, rest⟩ := Run.yields_bind.mp yields
      cases result <;> cases rest
  | handleFault | copyToUser | copyFromUser =>
      obtain ⟨_, _, rest⟩ := Run.yields_bind.mp yields
      cases rest
  | setFailingSectors | setTransferCaps | replaceFile => cases yields

/-- The mapping is live, no other one is of its file, and transfers of the file are not cut. -/
structure Sole (vm : Vm arch) (mapping : Mapping) : Prop where
  live : vm.mappings.get? mapping.id = some mapping
  alone : ∀ id other, vm.mappings.get? id = some other →
    other.segment.file = mapping.segment.file → id = mapping.id
  uncut : (vm.files.get mapping.segment.file).Uncut

instance (vm : Vm arch) (mapping : Mapping) : Decidable (vm.Sole mapping) :=
  decidable_of_iff (vm.mappings.get? mapping.id = some mapping ∧
      (∀ known ∈ vm.mappings.mappings.toList,
        known.2.segment.file = mapping.segment.file → known.1 = mapping.id) ∧
      (vm.files.get mapping.segment.file).Uncut) <| by
    simp only [Prod.forall, Std.ExtTreeMap.mem_toList_iff_getElem?_eq_some]
    exact ⟨fun ⟨live, alone, uncut⟩ => ⟨live, alone, uncut⟩,
      fun ⟨live, alone, uncut⟩ => ⟨live, alone, uncut⟩⟩

theorem Sole.eq (sole : vm.Sole mapping) {id : MappingId} {other : Mapping}
    (live : vm.layout.mapping id = some other)
    (same : other.segment.file = mapping.segment.file) : other = mapping := by
  obtain rfl := sole.alone id other live same
  exact Option.some_inj.mp (live.symm.trans sole.live)

/-- A state between the creation and the end of a mapping that has its file to itself, with what
the region holds there: at first the file's bytes, and from then on the last ones copied to
it. -/
inductive Mapped (mapping : Mapping) (original : Bytes) : Vm arch → (Nat → UInt8) → Prop
  | created {vm after : Vm arch} {operation : Operation} (reachable : Reachable vm)
      (yields : (vm.step operation).Yields (.mapping mapping.id, after))
      (sole : after.Sole mapping)
      (contents : (after.files.get mapping.segment.file).file.contents = original)
      (fits : mapping.segment.offset + mapping.segment.fileLength ≤ original.size) :
      Mapped mapping original after fun index =>
        original.getD (mapping.segment.offset + index) 0
  | step {vm after : Vm arch} {image : Nat → UInt8} {operation : Operation} {answer : Answer}
      (mapped : Mapped mapping original vm image)
      (stays : ¬operation.Replaces mapping.segment.file)
      (yields : (vm.step operation).Yields (answer, after)) (sole : after.Sole mapping) :
      Mapped mapping original after (mapping.imageAfter image operation answer)

theorem Mapped.sole (mapped : Mapped mapping original vm image) : vm.Sole mapping := by
  cases mapped with
  | created reachable yields sole => exact sole
  | step mapped stays yields sole => exact sole

theorem Mapped.reachable (mapped : Mapped mapping original vm image) : Reachable vm := by
  induction mapped with
  | created reachable yields => exact .step reachable yields
  | step mapped stays yields sole ih => exact .step ih yields

theorem Mapped.aligned (mapped : Mapped mapping original vm image) :
    mapping.segment.address.offset = 0 := by
  induction mapped with
  | step mapped stays yields sole ih => exact ih
  | @created vm after operation reachable yields sole =>
      obtain ⟨made, named, aligned, layout⟩ := created_of_yields reachable.consistent yields
      have live : after.layout.mapping mapping.id = some mapping := sole.live
      rw [layout, Layout.extend_mapping, if_pos named.symm] at live
      cases live
      exact aligned

/-- The region holds what was last copied to it. -/
theorem Mapped.keeps (mapped : Mapped mapping original vm image) (unspared : ¬mapping.Spares) :
    vm.layout.Keeps mapping original image := by
  induction mapped with
  | @created vm after operation reachable yields sole contents fits =>
      obtain ⟨made, named, _, layout⟩ := created_of_yields reachable.consistent yields
      have live : after.layout.mapping mapping.id = some mapping := sole.live
      have intact : after.layout.Intact mapping original := by
        refine ⟨unspared, fits, fun other live' => ?_, fun id other => sole.eq, sole.uncut, ?_,
          fun i _ => ?_⟩
        · cases live.symm.trans live'
          rfl
        · exact congrArg Array.size contents
        · exact congrArg (fun bytes : Bytes => bytes[i]?) contents
      have bytes : after.layout.fileBytes mapping = original := contents
      rw [layout, Layout.extend_mapping, if_pos named.symm] at live
      cases live
      rw [layout] at intact bytes ⊢
      exact intact.keeps_extend bytes
  | @step vm after image operation answer mapped stays yields sole ih =>
      have consistent := mapped.reachable.consistent
      cases course_of_yields consistent yields with
      | stored process address data stackPointer outcome copied =>
          exact (copyToUser_keeps ih mapped.aligned consistent process address data
            stackPointer).of_yields copied
      | fetched process address buffer stackPointer outcome filled copied =>
          exact ((copyFromUser_keeps ih mapped.aligned consistent process address buffer
            stackPointer).of_yields copied).1
      | other _ _ quiet effect =>
          have sound : vm.layout.Sound fun _ => True := consistent.tenants.sound _
          rw [Mapping.imageAfter_of_quiet quiet]
          exact ih.effect sound effect sole.live (fun id other => sole.eq) sole.uncut stays

theorem Mapped.ended (mapped : Mapped mapping original vm image) (unspared : ¬mapping.Spares)
    {operation : Operation} {answer : Answer} (yields : (vm.step operation).Yields (answer, after))
    (ends : operation = .destroyMapping mapping.owner mapping.id ∨
      operation = .exitProcess mapping.owner) :
    after.layout.Backed mapping original image ∧ after.layout.Sound (fun _ => True) ∧
      after.layout.mapping mapping.id = none := by
  have consistent := mapped.reachable.consistent
  have sound : vm.layout.Sound fun _ => True := consistent.tenants.sound _
  have backed := (mapped.keeps unspared).backed
  have live : vm.layout.mapping mapping.id = some mapping := mapped.sole.live
  obtain rfl | rfl := ends
  · obtain ⟨⟨result, last⟩, ran, rest⟩ := Run.yields_bind.mp yields
    have outcome := (destroyMapping_satisfies consistent mapping.owner mapping.id).of_yields ran
    cases result with
    | error cause => exact absurd rfl (outcome.2 mapping live)
    | ok _ =>
        cases rest
        obtain ⟨_, loses, _, mappings⟩ := outcome
        refine ⟨backed.shrinks sound loses.path, loses.consistent.tenants.sound _, ?_⟩
        rw [mappings, if_pos List.mem_cons_self]
  · obtain ⟨⟨result, last⟩, ran, rest⟩ := Run.yields_bind.mp yields
    have outcome := (exitProcess_satisfies consistent mapping.owner).of_yields ran
    cases result with
    | error cause =>
        have alive := sound.housed mapping.id mapping live
        exact absurd (alive.symm.trans outcome.2) (by simp)
    | ok _ =>
        cases rest
        obtain ⟨_, loses, _, mappings⟩ := outcome
        refine ⟨backed.shrinks sound loses.path, loses.consistent.tenants.sound _, ?_⟩
        rw [mappings, live]
        simp

theorem copyToUser_leaves (consistent : vm.Consistent tolerated) (process : ProcessId)
    (address : VirtualAddress) (data : Bytes) (stackPointer : VirtualAddress) :
    (vm.copyToUser process address data stackPointer).Satisfies tolerated
      fun (_, after) => Layout.Leaves file vm.layout after.layout := by
  unfold copyToUser
  split
  · refine .mono (writePieces_satisfies (fun _ _ now => Layout.Leaves file vm.layout now.layout)
      (fun _ last => Layout.Leaves file vm.layout last.layout) ?_ ?_ (fun _ leaves => leaves)
      (RangePiece.tiles_ofRange address data.size) consistent (.of_eq rfl rfl)) fun _ h => h.2.2
    · rintro start piece rest now after _ leaves _ _ _ _ ⟨middle, frame, reach, _, layout⟩
      rw [layout]
      exact (leaves.trans (.reach reach)).trans (.of_eq rfl rfl)
    · intro start piece rest now after cause _ leaves _ _ path
      exact leaves.trans (.moves path)
  · exact .pure (.of_eq rfl rfl)

theorem copyFromUser_leaves (consistent : vm.Consistent tolerated) (process : ProcessId)
    (address : VirtualAddress) (buffer : Bytes) (stackPointer : VirtualAddress) :
    (vm.copyFromUser process address buffer stackPointer).Satisfies tolerated
      fun (_, _, after) => Layout.Leaves file vm.layout after.layout := by
  unfold copyFromUser
  split
  · refine .mono (readPieces_satisfies
      (fun _ _ _ now => Layout.Leaves file vm.layout now.layout)
      (fun _ _ last => Layout.Leaves file vm.layout last.layout) ?_ ?_ (fun _ _ leaves => leaves)
      rfl (RangePiece.tiles_ofRange address buffer.size) consistent (.of_eq rfl rfl))
      fun _ h => h.2.2
    · rintro start piece rest filled bytes now after _ _ leaves _ _ _ _ ⟨frame, reach, _⟩
      exact leaves.trans (.reach reach)
    · intro start piece rest filled now after cause _ leaves _ path
      exact leaves.trans (.moves path)
  · exact .pure (.of_eq rfl rfl)

/-- A run in which all mappings of a file are read-only or static, and the file is not
replaced. -/
inductive Spared (file : FileId) (start : Vm arch) : Vm arch → Prop
  | start (reachable : Reachable start) : Spared file start start
  | step {vm after : Vm arch} {operation : Operation} {answer : Answer}
      (spared : Spared file start vm)
      (spares : ∀ id mapping, vm.mappings.get? id = some mapping →
        mapping.segment.file = file → mapping.Spares)
      (stays : ¬operation.Replaces file) (yields : (vm.step operation).Yields (answer, after)) :
      Spared file start after

theorem Spared.reachable {start : Vm arch} (spared : Spared file start vm) : Reachable vm := by
  induction spared with
  | start reachable => exact reachable
  | step _ _ _ yields ih => exact .step ih yields

theorem Spared.file_eq {start : Vm arch} (spared : Spared file start vm) :
    (vm.files.get file).file = (start.files.get file).file := by
  induction spared with
  | start reachable => rfl
  | @step vm after operation answer spared spares stays yields ih =>
      have consistent := spared.reachable.consistent
      have guarded : vm.layout.Spares file := spares
      refine Eq.trans ?_ ih
      cases course_of_yields consistent yields with
      | stored process address data stackPointer outcome copied =>
          exact ((copyToUser_leaves consistent process address data stackPointer).of_yields
            copied guarded).2
      | fetched process address buffer stackPointer outcome filled copied =>
          exact ((copyFromUser_leaves consistent process address buffer stackPointer).of_yields
            copied guarded).2
      | other _ _ quiet effect => exact guarded.effect effect stays

/-- A writable mapping that has its file to itself is written back exactly: copies from its
region return what was last copied to it, and when it has ended the file holds just that in
place of what it held behind the region. A file whose mappings are all read-only or static
does not change. -/
theorem writeBack_exact :
    (∀ (mapping : Mapping) (original : Bytes) (vm : Vm arch) (image : Nat → UInt8),
      Mapped mapping original vm image → mapping.segment.writable = true →
      mapping.segment.static = false →
        (∀ address buffer stackPointer outcome filled after,
          (vm.copyFromUser mapping.owner address buffer stackPointer).Yields
            (outcome, filled, after) →
          ∀ i index, i < outcome.copied → index < mapping.segment.fileLength →
            address.value + i = mapping.segment.address.value + index →
              filled[i]? = some (image index)) ∧
        ∀ operation answer after, (vm.step operation).Yields (answer, after) →
          (operation = .destroyMapping mapping.owner mapping.id ∨
            operation = .exitProcess mapping.owner) →
          after.mappings.get? mapping.id = none ∧
          (after.files.get mapping.segment.file).file.size = original.size ∧
          ∀ i, (after.files.get mapping.segment.file).file.contents[i]? =
            if mapping.segment.offset ≤ i ∧
                i - mapping.segment.offset < mapping.segment.fileLength then
              some (image (i - mapping.segment.offset))
            else original[i]?) ∧
    ∀ (file : FileId) (start vm : Vm arch), Spared file start vm →
      (vm.files.get file).file = (start.files.get file).file := by
  refine ⟨?_, fun file start vm spared => spared.file_eq⟩
  intro mapping original vm image mapped writable shared
  have unspared : ¬mapping.Spares := by simp [Mapping.Spares, writable, shared]
  have keeps := mapped.keeps unspared
  have consistent := mapped.reachable.consistent
  refine ⟨?_, ?_⟩
  · intro address buffer stackPointer outcome filled after yields
    exact ((copyFromUser_keeps keeps mapped.aligned consistent mapping.owner address buffer
      stackPointer).of_yields yields).2 rfl
  · intro operation answer after yields ends
    obtain ⟨backed, sound, gone⟩ := mapped.ended unspared yields ends
    exact ⟨gone, backed.intact.size, backed.contents sound gone⟩

def twoBytes : Mapping where
  id := ⟨1⟩
  owner := ⟨1⟩
  segment := { file := ⟨0⟩, address := ⟨0x1000⟩, offset := 1, fileLength := 2, zeroLength := 0 }

theorem twoBytes_tolerable (vm : Vm arch) :
    (Operation.mapSegment ⟨1⟩ twoBytes.segment).Tolerable (fun _ => False) vm := by
  intro mapping page same inside violation failed
  have large := Mapping.wordLimit_le_of_fileRange failed inside
  have small : page.value - mapping.base.value < mapping.pageCount := by
    simp only [Mapping.contains, Bool.and_eq_true, decide_eq_true_eq] at inside
    exact inside.2
  unfold Mapping.pageCount at small
  rw [same] at small large
  change page.value - mapping.base.value < 1 at small
  change wordLimit ≤ 1 + _ at large
  unfold wordLimit pageSize at large
  omega

/-- A byte is copied to a mapping, from there back, and to the file. -/
theorem writeBack_exact_twoBytes : ∃ (vm copied after : Vm .scaleModel) (image : Nat → UInt8)
    (outcome : CopyOutcome) (filled : Bytes) (answer : Answer),
      Mapped twoBytes #[1, 2, 3] vm image ∧
      (vm.copyFromUser ⟨1⟩ ⟨0x1001⟩ #[0] ⟨0⟩).Yields (outcome, filled, copied) ∧
      0 < outcome.copied ∧ filled[0]? = some 9 ∧
      (vm.step (.destroyMapping ⟨1⟩ ⟨1⟩)).Yields (answer, after) ∧
      (after.files.get ⟨0⟩).file.contents[2]? = some 9 := by
  have passes : (oneFrame.step (.createProcess ⟨1⟩)).passes (fun (_, vm) =>
      (vm.mapSegment ⟨1⟩ twoBytes.segment).passes fun (result, vm) =>
        result.toOption == some ⟨1⟩ && decide (vm.Sole twoBytes) &&
        (vm.files.get ⟨0⟩).file.contents == #[1, 2, 3] &&
        (vm.copyToUser ⟨1⟩ ⟨0x1001⟩ #[9] ⟨0⟩).passes fun (outcome, vm) =>
          outcome.copied == 1 && decide (vm.Sole twoBytes) &&
          (vm.copyFromUser ⟨1⟩ ⟨0x1001⟩ #[0] ⟨0⟩).passes fun (outcome, _, _) =>
            outcome.result.isOk) = true := by
    decide +kernel
  simp only [Run.passes_iff, Bool.and_eq_true, Prod.exists, beq_iff_eq,
    decide_eq_true_eq] at passes
  obtain ⟨_, started, start, result, created, accepted, ⟨⟨named, sole⟩, contents⟩, stored, vm,
    written, ⟨one, sole'⟩, fetched, filled, last, read, done⟩ := passes
  have create : (started.step (.mapSegment ⟨1⟩ twoBytes.segment)).Yields
      (.mapping ⟨1⟩, created) := by
    cases result with
    | error cause => cases named
    | ok id =>
        cases named
        exact Run.yields_bind.mpr ⟨_, accepted, rfl⟩
  have store : (created.step (.copyToUser ⟨1⟩ ⟨0x1001⟩ #[9] ⟨0⟩)).Yields (.stored stored, vm) :=
    Run.yields_bind.mpr ⟨_, written, rfl⟩
  have mapped : Mapped twoBytes #[1, 2, 3] created _ :=
    .created (.step (.boot oneFrame_booted) start) create sole contents (by decide)
  have mapped' := mapped.step id store sole'
  have nine : twoBytes.imageAfter (fun index => #[1, 2, 3].getD (1 + index) 0)
      (.copyToUser ⟨1⟩ ⟨0x1001⟩ #[9] ⟨0⟩) (.stored stored) 1 = 9 := by
    rw [Mapping.imageAfter_stored, one]
    decide +kernel
  -- none of these operations can be a violation
  have safe : vm.Consistent fun _ => False := by
    have safe := oneFrame_booted.consistent (oneFrame_addressable fun _ => False)
    have quiet : (Operation.createProcess ⟨1⟩).Tolerable (fun _ => False) oneFrame := trivial
    have safe' := ((step_satisfies safe quiet).of_yields start).2.1
    have safe'' := ((step_satisfies safe' (twoBytes_tolerable started)).of_yields create).2.1
    have quiet' : (Operation.copyToUser ⟨1⟩ ⟨0x1001⟩ #[9] ⟨0⟩).Tolerable (fun _ => False)
        created := trivial
    exact ((step_satisfies safe'' quiet').of_yields store).2.1
  have quiet : (Operation.destroyMapping ⟨1⟩ ⟨1⟩).Tolerable (fun _ => False) vm := trivial
  obtain ⟨⟨answer, after⟩, destroy⟩ := (step_satisfies safe quiet).exists_yields
  obtain ⟨reads, ends⟩ := writeBack_exact.1 twoBytes #[1, 2, 3] vm _ mapped' rfl rfl
  have full : fetched.copied = 1 := copyFromUser_copied read done
  refine ⟨vm, last, after, _, fetched, filled, answer, mapped', read, by omega, ?_, destroy, ?_⟩
  · rw [reads _ _ _ _ _ _ read 0 1 (by omega) (by decide) rfl]
    exact congrArg some nine
  · refine ((ends _ _ _ destroy (.inl rfl)).2.2 2).trans ?_
    exact congrArg some nine

end Vm
end DemandPaging
