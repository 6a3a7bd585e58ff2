import DemandPaging.Proofs.Copies
import DemandPaging.Proofs.Mappings
import DemandPaging.Proofs.Processes
import DemandPaging.Vm.Operation

/-!
The states that virtual memory can be in: those that a run of operations leads to from a
start without processes. All of them are consistent, and the effect of an operation on the
layout of contents is one of a few.
-/

namespace DemandPaging

variable {arch : Architecture} {tolerated : Violation → Prop}

namespace FramePool

variable {base : FrameNumber} {total : Nat} {access : FrameAccess} {pool : FramePool arch}

theorem new_free (new : FramePool.new base total access = .ok pool) :
    pool.free = pool.frames := by
  have finish : ∀ (guard : Checked Unit) (made : FramePool arch),
      (guard >>= fun _ => require (base.value + total ≤ wordLimit) (.overflow .add) >>= fun _ =>
        pure made) = .ok pool → made.free = made.frames → pool.free = pool.frames := by
    intro guard made made_eq ordered
    unfold require at made_eq
    cases guard with
    | error violation => cases made_eq
    | ok _ =>
        rw [Checked.ok_bind] at made_eq
        split at made_eq <;> cases made_eq
        exact ordered
  unfold FramePool.new at new
  split at new
  · exact finish (discard (Word.mul total pageSize)) _ new rfl
  · exact finish (.ok ()) _ new rfl

end FramePool

namespace FrameTable

theorem empty_wellFormed {base : FrameNumber} {total : Nat} {access : FrameAccess}
    {pool : FramePool arch} (new : FramePool.new base total access = .ok pool)
    {contents : NumberMap .frame Page}
    (addressable : ({ pool with contents } : FramePool arch).Addressable tolerated) :
    ({ pool := { pool with contents } } : FrameTable arch).WellFormed tolerated [] := by
  have free := FramePool.new_free new
  have untracked (frame : FrameNumber) :
      frame ∉ ({ pool := { pool with contents } } : FrameTable arch) :=
    find?_eq_none.mp (new_find? _ frame)
  refine ⟨⟨List.nodup_nil, fun frame => ?_, Circular.nil, rfl, ?_, fun _ => rfl, rfl⟩, ?_, ?_,
    fun frame _ => untracked frame, Array.size_replicate, ?_, addressable⟩
  · refine iff_of_false List.not_mem_nil fun queued => untracked frame (mem_of_field? queued)
  · rintro frame ⟨⟩
  · change pool.free.Nodup
    rw [free]
    exact pool.nodup_frames
  · intro frame
    change pool.contains frame = true ↔ frame ∈ pool.free ∨ _
    rw [← FramePool.mem_frames, ← free]
    exact (or_iff_left (untracked frame)).symm
  · change 0 + pool.free.length = pool.total
    rw [free, FramePool.frames, List.length_map, List.length_range, Nat.zero_add]

end FrameTable

namespace Vm

/-- Virtual memory as it starts: over a new pool, whose frames may hold anything, and over a
device whose sectors have 32-bit numbers. -/
def Booted (vm : Vm arch) : Prop :=
  ∃ config base total access contents device files, ∃ pool : FramePool arch,
    FramePool.new base total access = .ok pool ∧ device.sectorCount < 0x100000000 ∧
      (Vm.boot config { pool with contents } device files).Yields vm

/-- A state that some run of operations leads to. -/
inductive Reachable : Vm arch → Prop
  | boot {vm : Vm arch} (booted : vm.Booted) : Reachable vm
  | step {vm after : Vm arch} {operation : Operation} {answer : Answer}
      (reachable : Reachable vm) (yields : (vm.step operation).Yields (answer, after)) :
      Reachable after

theorem boot_yields {config : StackConfig} {pool : FramePool arch} {device : SwapDevice}
    {files : FileStore} {vm : Vm arch} (yields : (boot config pool device files).Yields vm) :
    config.region arch = .ok vm.stack ∧ vm = {
      stack := vm.stack
      frames := { pool }
      swap := { device, slots := .new (device.sectorCount / sectorsPerPage) }
      files } := by
  unfold boot at yields
  obtain ⟨stack, region, yields⟩ := Run.yields_bind.mp yields
  obtain ⟨_, _, yields⟩ := Run.yields_bind.mp yields
  obtain ⟨frames, table, yields⟩ := Run.yields_bind.mp yields
  obtain ⟨swap, slots, yields⟩ := Run.yields_bind.mp yields
  cases table
  cases slots
  cases yields
  exact ⟨region, rfl⟩

theorem Booted.empty {vm : Vm arch} (booted : vm.Booted) :
    (∀ page, vm.layout.entry page = none) ∧ ∀ id, vm.layout.mapping id = none := by
  obtain ⟨config, base, total, access, contents, device, files, pool, _, _, yields⟩ := booted
  rw [(boot_yields yields).2]
  refine ⟨fun page => ?_, fun id => ?_⟩
  · simp [layout, Tenants.layout, Tenants.entryAt]
  · simp [layout, Tenants.layout, MappingTable.get?]

theorem Booted.consistent {vm : Vm arch} (booted : vm.Booted)
    (addressable : vm.frames.pool.Addressable tolerated) : vm.Consistent tolerated := by
  obtain ⟨config, base, total, access, contents, device, files, pool, new, small, yields⟩ := booted
  obtain ⟨_, start⟩ := boot_yields yields
  rw [start] at addressable ⊢
  refine ⟨⟨[], FrameTable.empty_wellFormed new addressable, ?_⟩, ?_, ?_, ?_, ?_, ?_, ?_⟩
  · exact fun frame tracked =>
      absurd tracked (FrameTable.find?_eq_none.mp (FrameTable.new_find? _ frame))
  · intro contents
    refine ⟨?_, ?_, ?_, ?_⟩
    · intro page entry found
      simp [Tenants.layout, Tenants.entryAt] at found
    · intro id mapping live
      simp [Tenants.layout, MappingTable.get?] at live
    · intro id mapping page live
      simp [Tenants.layout, MappingTable.get?] at live
    · intro id mapping live
      simp [Tenants.layout, MappingTable.get?] at live
  · intro process space found
    simp at found
  · intro frame page
    simp [FrameTable.ownerOf, Tenants.entryAt]
  · exact SwapTable.new_wellFormed small
  · intro slot
    simp [SwapTable.isAllocated, Tenants.entryAt]
  · intro id mapping live
    simp [MappingTable.get?] at live

namespace Operation

/-- Whether an operation puts this channel in the place of a file. -/
def Refiles (files : FileStore) (file : FileId) (channel : FileChannel) : Operation → Prop
  | .setTransferCaps other read write =>
    other = file ∧ channel = (files.get file).setCaps read write
  | .replaceFile other contents => other = file ∧ channel = (files.get file).replace contents
  | _ => False

/-- Whether an operation puts other contents in the place of a file. -/
def Replaces (file : FileId) : Operation → Prop
  | .replaceFile other _ => other = file
  | _ => False

theorem Refiles.file_eq {operation : Operation} {files : FileStore} {file : FileId}
    {channel : FileChannel} (named : operation.Refiles files file channel)
    (stays : ¬operation.Replaces file) : channel.file = (files.get file).file := by
  cases operation with
  | setTransferCaps other read write =>
      obtain ⟨_, rfl⟩ := named
      rfl
  | replaceFile other contents => exact absurd named.1 stays
  | _ => exact named.elim

def IsCopy : Operation → Prop
  | .copyToUser .. => True
  | .copyFromUser .. => True
  | _ => False

/-- Violations that an operation itself gives rise to are tolerated: a part of a file that
is out of range, and a fault on a resident page that is no fault. -/
def Tolerable (tolerated : Violation → Prop) (vm : Vm arch) : Operation → Prop
  | .handleFault process fault | .resolveFault process fault =>
    ∀ entry, vm.layout.entry (process, fault.address.page) = some entry →
      entry.isResident = true → (fault.write = true → entry.writable = true) →
        tolerated (.faultedWhileResident fault.address.page process)
  | .mapSegment _ segment =>
    ∀ (mapping : Mapping) page, mapping.segment = segment → mapping.contains page →
      ∀ violation, mapping.fileRange page = .error violation → tolerated violation
  | .createMapping _ file address length =>
    ∀ (mapping : Mapping) page, mapping.segment =
        Segment.wholeFile file (vm.files.get file).file.size address length →
      mapping.contains page →
        ∀ violation, mapping.fileRange page = .error violation → tolerated violation
  | _ => True

theorem tolerable_of_forall (all : ∀ violation, tolerated violation) (vm : Vm arch)
    (operation : Operation) : operation.Tolerable tolerated vm := by
  cases operation with
  | handleFault | resolveFault => exact fun _ _ _ _ => all _
  | mapSegment | createMapping => exact fun _ _ _ _ violation _ => all violation
  | _ => trivial

end Operation

/-- What an operation that is not a copy does to the contents of memory and files. -/
inductive Effect (operation : Operation) (layout : Layout) : Layout → Prop
  | moves (moved : Layout) (path : Relation.ReflTransGen Shift layout moved) :
      Effect operation layout moved
  | brings (page : UserPage) (frame : FrameNumber) (middle moved : Layout)
      (path : Relation.ReflTransGen Shift layout middle)
      (arrival : Arrival page frame middle moved)
      (away : layout.resident page = false) : Effect operation layout moved
  | loses (ended : MappingId → Prop) (moved : Layout)
      (path : Relation.ReflTransGen (Shrink ended) layout moved)
      (ending : ∀ id, ended id → moved.mapping id = none) : Effect operation layout moved
  | spawns (process : ProcessId) (dead : layout.live process = false) :
      Effect operation layout (layout.spawn process)
  | maps (mapping : Mapping) (fresh : layout.mapping mapping.id = none)
      (live : layout.live mapping.owner = true)
      (free : ∀ page, mapping.contains page → layout.entry (mapping.owner, page) = none) :
      Effect operation layout (layout.extend mapping)
  | refiles (file : FileId) (channel : FileChannel)
      (named : operation.Refiles layout.files file channel) :
      Effect operation layout { layout with files := layout.files.set file channel }

theorem Brings.effect {ε : Type} {operation : Operation} {page : UserPage}
    {layout moved : Layout} {result : Except ε FrameNumber}
    (brings : Brings page layout moved result) : Effect operation layout moved := by
  cases result with
  | error cause => exact .moves moved brings
  | ok frame =>
      obtain ⟨away, ⟨middle, path, arrival⟩, _⟩ := brings
      exact .brings page frame middle moved path arrival away

theorem copyToUser_satisfies {vm : Vm arch} (consistent : vm.Consistent tolerated)
    (process : ProcessId) (address : VirtualAddress) (data : Bytes)
    (stackPointer : VirtualAddress) :
    (vm.copyToUser process address data stackPointer).Satisfies tolerated fun (_, after) =>
      after.stack = vm.stack ∧ after.Consistent tolerated := by
  unfold copyToUser
  split
  · refine .mono (writePieces_satisfies (fun _ _ _ => True) (fun _ _ => True)
      (fun _ _ _ _ _ _ _ _ _ _ _ _ => trivial) (fun _ _ _ _ _ _ _ _ _ _ _ => trivial)
      (fun _ _ => trivial) (RangePiece.tiles_ofRange address data.size) consistent trivial) ?_
    rintro ⟨outcome, after⟩ ⟨stack, consistent', _⟩
    exact ⟨stack, consistent'⟩
  · exact .pure ⟨rfl, consistent⟩

theorem copyFromUser_satisfies {vm : Vm arch} (consistent : vm.Consistent tolerated)
    (process : ProcessId) (address : VirtualAddress) (buffer : Bytes)
    (stackPointer : VirtualAddress) :
    (vm.copyFromUser process address buffer stackPointer).Satisfies tolerated
      fun (_, _, after) => after.stack = vm.stack ∧ after.Consistent tolerated := by
  unfold copyFromUser
  split
  · refine .mono (readPieces_satisfies (fun _ _ _ _ => True) (fun _ _ _ => True)
      (fun _ _ _ _ _ _ _ _ _ _ _ _ _ _ _ => trivial) (fun _ _ _ _ _ _ _ _ _ _ _ => trivial)
      (fun _ _ _ => trivial) rfl (RangePiece.tiles_ofRange address buffer.size) consistent
      trivial) ?_
    rintro ⟨outcome, filled, after⟩ ⟨stack, consistent', _⟩
    exact ⟨stack, consistent'⟩
  · exact .pure ⟨rfl, consistent⟩

/-- What an operation keeps, and its effect if it is not a copy. -/
def Keeps (tolerated : Violation → Prop) (operation : Operation) (vm after : Vm arch) : Prop :=
  after.stack = vm.stack ∧ after.Consistent tolerated ∧
    (¬operation.IsCopy → Effect operation vm.layout after.layout)

theorem Keeps.refl {vm : Vm arch} (consistent : vm.Consistent tolerated)
    (operation : Operation) : Keeps tolerated operation vm vm :=
  ⟨rfl, consistent, fun _ => .moves _ .refl⟩

theorem mapSegment_keeps {vm : Vm arch} (consistent : vm.Consistent tolerated)
    (operation : Operation) {process : ProcessId} {segment : Segment}
    (ranges : ∀ (mapping : Mapping) page, mapping.segment = segment → mapping.contains page →
      ∀ violation, mapping.fileRange page = .error violation → tolerated violation) :
    (vm.mapSegment process segment).Satisfies tolerated fun (_, after) =>
      Keeps tolerated operation vm after := by
  refine .mono (mapSegment_satisfies consistent ranges) ?_
  rintro ⟨result, after⟩ outcome
  cases result with
  | error cause =>
      cases outcome
      exact .refl consistent operation
  | ok id =>
      obtain ⟨stack, consistent', live, _, mapping, rfl, rfl, rfl, fresh, free, layout⟩ := outcome
      refine ⟨stack, consistent', fun _ => ?_⟩
      rw [layout]
      exact .maps mapping fresh live free

theorem createMapping_keeps {vm : Vm arch} (consistent : vm.Consistent tolerated)
    (operation : Operation) {process : ProcessId} {file : FileId} {address : VirtualAddress}
    {length : Nat}
    (ranges : ∀ (mapping : Mapping) page, mapping.segment =
        Segment.wholeFile file (vm.files.get file).file.size address length →
      mapping.contains page →
        ∀ violation, mapping.fileRange page = .error violation → tolerated violation) :
    (vm.createMapping process file address length).Satisfies tolerated fun (_, after) =>
      Keeps tolerated operation vm after := by
  unfold createMapping
  dsimp only
  split
  · exact .pure (.refl consistent operation)
  · exact mapSegment_keeps consistent operation ranges

theorem destroyMapping_keeps {vm : Vm arch} (consistent : vm.Consistent tolerated)
    (operation : Operation) (process : ProcessId) (id : MappingId) :
    (vm.destroyMapping process id).Satisfies tolerated fun (_, after) =>
      Keeps tolerated operation vm after := by
  refine .mono (destroyMapping_satisfies consistent process id) ?_
  rintro ⟨result, after⟩ outcome
  cases result with
  | error cause =>
      cases outcome.1
      exact .refl consistent operation
  | ok _ =>
      obtain ⟨stack, loses, _, mappings⟩ := outcome
      refine ⟨stack, loses.consistent, fun _ => .loses (· ∈ [id]) _ loses.path ?_⟩
      intro other ending
      rw [mappings, if_pos ending]

theorem exitProcess_keeps {vm : Vm arch} (consistent : vm.Consistent tolerated)
    (operation : Operation) (process : ProcessId) :
    (vm.exitProcess process).Satisfies tolerated fun (_, after) =>
      Keeps tolerated operation vm after := by
  refine .mono (exitProcess_satisfies consistent process) ?_
  rintro ⟨result, after⟩ outcome
  cases result with
  | error cause =>
      cases outcome.1
      exact .refl consistent operation
  | ok _ =>
      obtain ⟨stack, loses, _, mappings⟩ := outcome
      refine ⟨stack, loses.consistent, fun _ => .loses _ _ loses.path ?_⟩
      rintro id ⟨mapping, live, mine⟩
      rw [mappings, live]
      simp [mine]

theorem refiles_keeps {vm : Vm arch} (consistent : vm.Consistent tolerated)
    {operation : Operation} {file : FileId} {channel : FileChannel}
    (named : operation.Refiles vm.files file channel) :
    Keeps tolerated operation vm { vm with files := vm.files.set file channel } := by
  refine ⟨rfl, ⟨consistent.frames, ?_⟩, fun _ => .refiles file channel named⟩
  exact consistent.tenants.restore consistent.tenants.swap (fun _ => Iff.rfl) _

/-- Every operation keeps the machine consistent, and has one of the effects on contents that
are listed. -/
theorem step_satisfies {vm : Vm arch} (consistent : vm.Consistent tolerated)
    {operation : Operation} (tolerable : operation.Tolerable tolerated vm) :
    (vm.step operation).Satisfies tolerated fun (_, after) =>
      Keeps tolerated operation vm after := by
  cases operation with
  | createProcess process =>
      refine .bind (createProcess_satisfies consistent process) ?_
      rintro ⟨result, after⟩ outcome
      cases result with
      | error cause =>
          cases outcome
          exact .pure (.refl consistent _)
      | ok _ =>
          obtain ⟨stack, consistent', dead, layout⟩ := outcome
          refine .pure ⟨stack, consistent', fun _ => ?_⟩
          rw [layout]
          exact .spawns process dead
  | exitProcess process =>
      refine .bind (exitProcess_keeps consistent (.exitProcess process) process) ?_
      rintro ⟨result, after⟩ keeps
      exact .pure keeps
  | handleFault process fault =>
      refine .bind (handleFault_satisfies consistent tolerable) ?_
      rintro ⟨resolved, after⟩ ⟨stack, consistent', result, brings⟩
      exact .pure ⟨stack, consistent', fun _ => brings.effect⟩
  | resolveFault process fault =>
      refine .bind (resolveFault_satisfies consistent tolerable) ?_
      rintro ⟨result, after⟩ ⟨stack, consistent', brings, _⟩
      cases result with
      | error cause => exact .pure ⟨stack, consistent', fun _ => brings.effect⟩
      | ok frame => exact .pure ⟨stack, consistent', fun _ => brings.effect⟩
  | installPage process address writable =>
      refine .bind (installPage_satisfies consistent process address writable) ?_
      rintro ⟨result, after⟩ ⟨stack, consistent', outcome⟩
      cases result with
      | error cause => exact .pure ⟨stack, consistent', fun _ => .moves _ outcome⟩
      | ok frame =>
          obtain ⟨away, middle, path, arrival⟩ := outcome
          exact .pure ⟨stack, consistent', fun _ => .brings _ frame middle _ path arrival away⟩
  | createMapping process file address length =>
      refine .bind (createMapping_keeps consistent (.createMapping process file address length)
        tolerable) ?_
      rintro ⟨result, after⟩ keeps
      exact .pure keeps
  | mapSegment process segment =>
      refine .bind (mapSegment_keeps consistent (.mapSegment process segment) tolerable) ?_
      rintro ⟨result, after⟩ keeps
      exact .pure keeps
  | destroyMapping process mapping =>
      refine .bind (destroyMapping_keeps consistent (.destroyMapping process mapping) process
        mapping) ?_
      rintro ⟨result, after⟩ keeps
      exact .pure keeps
  | copyToUser process address data stackPointer =>
      refine .bind (copyToUser_satisfies consistent process address data stackPointer) ?_
      rintro ⟨outcome, after⟩ ⟨stack, consistent'⟩
      exact .pure ⟨stack, consistent', fun quiet => absurd trivial quiet⟩
  | copyFromUser process address buffer stackPointer =>
      refine .bind (copyFromUser_satisfies consistent process address buffer stackPointer) ?_
      rintro ⟨outcome, filled, after⟩ ⟨stack, consistent'⟩
      exact .pure ⟨stack, consistent', fun quiet => absurd trivial quiet⟩
  | setFailingSectors reads writes =>
      have swap : (vm.swap.setFailing reads writes).WellFormed :=
        ⟨consistent.tenants.swap.slots, consistent.tenants.swap.sectors⟩
      have layout : ({ vm with swap := vm.swap.setFailing reads writes } : Vm arch).layout =
          vm.layout := by
        refine (Tenants.restore_layout vm.toTenants (vm.swap.setFailing reads writes) vm.files
          vm.frames.pool.page).trans ?_
        rw [SwapTable.setFailing_page]
        rfl
      refine .pure ⟨rfl, ⟨consistent.frames, ?_⟩, fun _ => ?_⟩
      · exact consistent.tenants.restore swap (fun _ => Iff.rfl) vm.files
      · rw [layout]
        exact .moves _ .refl
  | setTransferCaps file read write => exact .pure (refiles_keeps consistent ⟨rfl, rfl⟩)
  | replaceFile file contents => exact .pure (refiles_keeps consistent ⟨rfl, rfl⟩)

/-- What an operation that has ended has done: a copy, or something with a listed effect. -/
inductive Course (vm after : Vm arch) : Operation → Answer → Prop
  | stored (process : ProcessId) (address : VirtualAddress) (data : Bytes)
      (stackPointer : VirtualAddress) (outcome : CopyOutcome)
      (copied : (vm.copyToUser process address data stackPointer).Yields (outcome, after)) :
      Course vm after (.copyToUser process address data stackPointer) (.stored outcome)
  | fetched (process : ProcessId) (address : VirtualAddress) (buffer : Bytes)
      (stackPointer : VirtualAddress) (outcome : CopyOutcome) (filled : Bytes)
      (copied : (vm.copyFromUser process address buffer stackPointer).Yields
        (outcome, filled, after)) :
      Course vm after (.copyFromUser process address buffer stackPointer)
        (.fetched outcome filled)
  | other (operation : Operation) (answer : Answer) (quiet : ¬operation.IsCopy)
      (effect : Effect operation vm.layout after.layout) : Course vm after operation answer

theorem course_of_yields {vm after : Vm arch} (consistent : vm.Consistent fun _ => True)
    {operation : Operation} {answer : Answer}
    (yields : (vm.step operation).Yields (answer, after)) :
    Course vm after operation answer := by
  by_cases copy : operation.IsCopy
  · cases operation with
    | copyToUser process address data stackPointer =>
        obtain ⟨⟨outcome, last⟩, copied, rest⟩ := Run.yields_bind.mp yields
        cases rest
        exact .stored process address data stackPointer outcome copied
    | copyFromUser process address buffer stackPointer =>
        obtain ⟨⟨outcome, filled, last⟩, copied, rest⟩ := Run.yields_bind.mp yields
        cases rest
        exact .fetched process address buffer stackPointer outcome filled copied
    | _ => exact copy.elim
  · have tolerable := operation.tolerable_of_forall (fun _ => trivial) vm
    exact .other operation answer copy
      (((step_satisfies consistent tolerable).of_yields yields).2.2 copy)

/-- Every state is consistent, if the violations are tolerated that pools and operations give
rise to by themselves. -/
theorem Reachable.consistent_of {vm : Vm arch} (reachable : Reachable vm)
    (pools : ∀ pool : FramePool arch, pool.Addressable tolerated)
    (operations : ∀ (vm : Vm arch) operation, Operation.Tolerable tolerated vm operation) :
    vm.Consistent tolerated := by
  induction reachable with
  | boot booted => exact booted.consistent (pools _)
  | @step vm _ operation _ _ yields ih =>
      exact ((step_satisfies ih (operations vm operation)).of_yields yields).2.1

/-- Every state is consistent, with every violation tolerated. -/
theorem Reachable.consistent {vm : Vm arch} (reachable : Reachable vm) :
    vm.Consistent fun _ => True := by
  refine reachable.consistent_of ?_ fun vm operation => ?_
  · exact fun _ _ _ => ⟨fun _ _ => trivial, fun _ _ => trivial⟩
  · exact operation.tolerable_of_forall (fun _ => trivial) vm

def run? (vm : Vm arch) : List Operation → Option (Vm arch)
  | [] => some vm
  | operation :: rest =>
    match (vm.step operation).outcome with
    | .ok (_, after) => after.run? rest
    | .error _ => none

theorem run?_induction {vm last : Vm arch} {motive : Vm arch → Prop}
    (step : ∀ (vm after : Vm arch) operation answer, motive vm →
      (vm.step operation).Yields (answer, after) → motive after)
    (start : motive vm) {operations : List Operation} (ran : vm.run? operations = some last) :
    motive last := by
  induction operations generalizing vm with
  | nil =>
      cases ran
      exact start
  | cons operation rest ih =>
      unfold run? at ran
      cases ended : (vm.step operation).outcome with
      | error violation =>
          rw [ended] at ran
          cases ran
      | ok result =>
          rw [ended] at ran
          exact ih (step vm result.2 operation result.1 start ended) ran

theorem Reachable.run {vm last : Vm arch} (reachable : Reachable vm) {operations : List Operation}
    (ran : vm.run? operations = some last) : Reachable last :=
  run?_induction (fun _ _ _ _ reachable yields => .step reachable yields) reachable ran

def oneFrame : Vm .scaleModel where
  stack := { bottom := ⟨0xC0000000 - 8 * 1024 * 1024⟩, slack := 32 }
  frames := { pool := { base := ⟨16⟩, total := 1, free := [⟨16⟩], access := .hosted } }
  swap := { device := { disk := { size := 16 }, sectorCount := 16 }, slots := .new 2 }
  files := .ofList [⟨#[1, 2, 3]⟩]

theorem oneFrame_booted : oneFrame.Booted :=
  ⟨{}, ⟨16⟩, 1, .hosted, ∅, { disk := { size := 16 }, sectorCount := 16 }, _, _, rfl, by decide,
    rfl⟩

theorem oneFrame_addressable (tolerated : Violation → Prop) :
    oneFrame.frames.pool.Addressable tolerated := by
  intro frame inside
  have listed : frame ∈ [(⟨16⟩ : FrameNumber)] := FramePool.mem_frames.mpr inside
  obtain rfl := List.mem_singleton.mp listed
  exact ⟨by rintro violation ⟨⟩, by rintro violation ⟨⟩⟩

end Vm
end DemandPaging
