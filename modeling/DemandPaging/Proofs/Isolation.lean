import Mathlib.Data.List.Infix
import DemandPaging.Proofs.Quiet

/-!
Processes are isolated from each other. Machines that are alike stay alike while bytes are copied
to and from memory, of which those of some processes may differ. So what the other processes are
answered, and all that is counted, does not depend on these bytes.
-/

namespace DemandPaging
namespace Vm

variable {arch : Architecture} {secret : ProcessId → Prop} {hidden : FileId → Prop}
  {vm other : Vm arch} {process : ProcessId} {page : UserPage} {frame : FrameNumber}
  {base stackPointer : VirtualAddress}

theorem contentsOf_refill (consistent : vm.Consistent fun _ => True)
    (backs : vm.layout.Backs page (.frame frame)) (contents : Page) (another : UserPage) :
    ({ vm with frames := vm.frames.refill frame contents } : Vm arch).layout.contentsOf another =
      if another = page then some contents else vm.layout.contentsOf another := by
  rw [(consistent.refill frame contents).2]
  have sound : vm.layout.Sound fun _ => True := consistent.tenants.sound _
  have entries : (vm.layout.fillFrame frame contents).entry = vm.layout.entry := rfl
  split
  · rename_i same
    subst same
    obtain ⟨entry, present, resident⟩ := backs
    rw [Layout.contentsOf_eq ((congrFun entries _).trans present), resident]
    exact congrArg some (Function.update_self _ _ _)
  · rename_i apart
    unfold Layout.contentsOf
    rw [entries]
    cases present : vm.layout.entry another with
    | none => rfl
    | some entry =>
        cases source : entry.backing with
        | swap | file => rw [Option.bind_some, Option.bind_some, source]; rfl
        | frame place =>
            rw [Option.bind_some, Option.bind_some, source]
            refine congrArg some (Function.update_of_ne ?_ _ _)
            rintro rfl
            exact apart (sound.unique (.frame place) trivial backs ⟨entry, present, source⟩)

theorem Paired.refill (paired : vm.Paired secret hidden other)
    (backs : vm.layout.Backs page (.frame frame)) {contents last : Page}
    (same : ¬secret page.1 → last = contents) :
    ({ vm with frames := vm.frames.refill frame contents } : Vm arch).Paired secret hidden
      { other with frames := other.frames.refill frame last } := by
  have frames : (vm.frames.refill frame contents).Twins (other.frames.refill frame last) := by
    obtain ⟨held, table⟩ := paired.frames
    rw [table]
    exact ⟨_, rfl⟩
  refine ⟨⟨⟨paired.stack, frames, paired.tenants⟩, fun another shown => ?_⟩,
    (paired.first.refill frame contents).1, (paired.second.refill frame last).1, paired.separate⟩
  rw [contentsOf_refill paired.first backs, contentsOf_refill paired.second (paired.backs backs)]
  split
  · rename_i here
    rw [same (here ▸ shown)]
  · exact paired.contents another shown

/-- A piece is stored alike: the outcome does not depend on the bytes, and they show only in the
memory of the process. -/
theorem Paired.storePiece (paired : vm.Paired secret hidden other) (process : ProcessId)
    (piece : RangePiece) {source last : Bytes} (size : last.size = source.size)
    (same : ¬secret process → last = source)
    (fits : piece.address.offset + source.size ≤ pageSize) :
    (vm.storePiece process piece source stackPointer).Alike (SameAnswer (Paired secret hidden))
      (other.storePiece process piece last stackPointer) := by
  unfold Vm.storePiece
  refine .bind (paired.userFrame process piece.address true stackPointer) ?_
  rintro ⟨result, used⟩ ⟨_, used'⟩ ⟨⟨rfl, paired⟩, backs⟩
  cases result with
  | error cause => exact .pure ⟨rfl, paired⟩
  | ok frame =>
      have backs := backs frame rfl
      obtain ⟨_, wellFormed, inside⟩ := paired.first.tracked_of_grants backs
      obtain ⟨_, wellFormed', inside'⟩ := paired.second.tracked_of_grants (paired.backs backs)
      refine .bind (.lift ((paired.frames.write frame piece.address.offset size).and
        (FrameTable.write_satisfies wellFormed inside fits)
        (FrameTable.write_satisfies wellFormed' inside' (size ▸ fits)))) ?_
      rintro _ _ ⟨_, rfl, rfl⟩
      refine .pure ⟨rfl, paired.refill backs fun shown => ?_⟩
      rw [paired.page_eq backs shown, same shown]

theorem Paired.fetchPiece (paired : vm.Paired secret hidden other) (process : ProcessId)
    (piece : RangePiece) :
    (vm.fetchPiece process piece stackPointer).Alike
      (fun left right => left.2.Paired secret hidden right.2 ∧
        (left.1.map Array.size = right.1.map Array.size) ∧
          (¬secret process → right.1 = left.1))
      (other.fetchPiece process piece stackPointer) := by
  unfold Vm.fetchPiece
  refine .bind (paired.userFrame process piece.address false stackPointer) ?_
  rintro ⟨result, used⟩ ⟨_, used'⟩ ⟨⟨rfl, paired⟩, backs⟩
  cases result with
  | error cause => exact .pure ⟨paired, rfl, fun _ => rfl⟩
  | ok frame =>
      refine .bind (.lift (paired.frames.read frame piece.address.offset piece.length)) ?_
      rintro _ _ ⟨rfl, rfl⟩
      refine .pure ⟨paired, ?_, fun shown => ?_⟩
      · simp [Except.map, Page.slice]
      · rw [paired.page_eq (backs frame rfl) shown]

theorem Paired.writePieces (paired : vm.Paired secret hidden other) {data last : Bytes}
    (size : last.size = data.size) (same : ¬secret process → last = data)
    {pieces : List RangePiece} {start : Nat}
    (tiles : RangePiece.Tiles base data.size start pieces) :
    (writePieces process base data stackPointer vm pieces).Alike
      (SameAnswer (Paired secret hidden))
      (writePieces process base last stackPointer other pieces) := by
  induction tiles generalizing vm other with
  | done =>
      unfold Vm.writePieces
      rw [size]
      exact .pure ⟨rfl, paired⟩
  | @next start piece rest place fits tiles ih =>
      have within := tiles.start_le
      unfold Vm.writePieces
      refine .bind (paired.storePiece process piece ?_ ?_ ?_) ?_
      · rw [Array.size_extract, Array.size_extract, size]
      · intro shown
        rw [same shown]
      · rw [Array.size_extract]
        omega
      · rintro ⟨result, after⟩ ⟨_, after'⟩ ⟨rfl, paired⟩
        cases result with
        | error cause => exact .pure ⟨rfl, paired⟩
        | ok _ => exact ih paired

theorem Paired.readPieces (paired : vm.Paired secret hidden other) (pieces : List RangePiece)
    {buffer last : Bytes} (size : last.size = buffer.size)
    (same : ¬secret process → last = buffer) :
    (readPieces process base buffer stackPointer vm pieces).Alike
      (SameAnswer fun left right => left.2.Paired secret hidden right.2 ∧
        right.1.size = left.1.size ∧ (¬secret process → right.1 = left.1))
      (readPieces process base last stackPointer other pieces) := by
  induction pieces generalizing vm other buffer last with
  | nil =>
      unfold Vm.readPieces
      rw [size]
      exact .pure ⟨rfl, paired, size, same⟩
  | cons piece rest ih =>
      unfold Vm.readPieces
      refine .bind (paired.fetchPiece process piece) ?_
      rintro ⟨result, after⟩ ⟨result', after'⟩ ⟨paired, sizes, equal⟩
      cases result with
      | error cause =>
          cases result' with
          | ok _ => cases sizes
          | error _ =>
              obtain rfl := Except.error.inj sizes
              exact .pure ⟨rfl, paired, size, same⟩
      | ok bytes =>
          cases result' with
          | error _ => cases sizes
          | ok bytes' =>
              refine ih paired ?_ fun shown => ?_
              · rw [Bytes.size_overwrite, Bytes.size_overwrite, size]
              · rw [same shown, Except.ok.inj (equal shown)]

theorem Paired.copyToUser (paired : vm.Paired secret hidden other) (process : ProcessId)
    (address : VirtualAddress) {data last : Bytes} (size : last.size = data.size)
    (same : ¬secret process → last = data) :
    (vm.copyToUser process address data stackPointer).Alike (SameAnswer (Paired secret hidden))
      (other.copyToUser process address last stackPointer) := by
  unfold Vm.copyToUser
  rw [size]
  split
  · exact paired.writePieces size same (RangePiece.tiles_ofRange address data.size)
  · exact .pure ⟨rfl, paired⟩

theorem Paired.copyFromUser (paired : vm.Paired secret hidden other) (process : ProcessId)
    (address : VirtualAddress) (buffer : Bytes) :
    (vm.copyFromUser process address buffer stackPointer).Alike
      (SameAnswer fun left right => left.2.Paired secret hidden right.2 ∧
        right.1.size = left.1.size ∧ (¬secret process → right.1 = left.1))
      (other.copyFromUser process address buffer stackPointer) := by
  unfold Vm.copyFromUser
  split
  · exact paired.readPieces _ rfl fun _ => rfl
  · exact .pure ⟨rfl, paired, rfl, fun _ => rfl⟩

/-- The operations are the same, but for the bytes that a process of the set copies into its
memory. -/
inductive Operation.Alike (secret : ProcessId → Prop) : Operation → Operation → Prop
  | same (operation : Operation) : Alike secret operation operation
  | stores (process : ProcessId) (address : VirtualAddress) (data last : Bytes)
      (stackPointer : VirtualAddress) (inside : secret process) (size : last.size = data.size) :
      Alike secret (.copyToUser process address data stackPointer)
        (.copyToUser process address last stackPointer)

/-- The operation has the same answer twice, but for the bytes that a process of the set copies
from its memory. -/
inductive Answer.Alike (secret : ProcessId → Prop) : Operation → Answer → Answer → Prop
  | same (operation : Operation) (answer : Answer) : Alike secret operation answer answer
  | fetches (process : ProcessId) (address : VirtualAddress) (buffer : Bytes)
      (stackPointer : VirtualAddress) (outcome : CopyOutcome) (filled last : Bytes)
      (inside : secret process) (size : last.size = filled.size) :
      Alike secret (.copyFromUser process address buffer stackPointer) (.fetched outcome filled)
        (.fetched outcome last)

/-- A step leaves machines that are alike, and answers alike. -/
theorem Paired.step (paired : vm.Paired secret hidden other) {operation another : Operation}
    (same : operation.Alike secret another) :
    (vm.step operation).Alike (fun left right => Answer.Alike secret operation left.1 right.1 ∧
      left.2.Alike secret hidden right.2 ∧ left.2.Consistent (fun _ => True) ∧
        right.2.Consistent fun _ => True) (other.step another) := by
  cases same with
  | stores process address data last stackPointer inside size =>
      refine .bind (paired.copyToUser process address size fun shown => absurd inside shown) ?_
      rintro ⟨outcome, after⟩ ⟨_, after'⟩ ⟨rfl, paired⟩
      exact .pure ⟨.same _ _, paired.toAlike, paired.first, paired.second⟩
  | same =>
      by_cases copy : operation.IsCopy
      · cases operation with
        | copyToUser process address data stackPointer =>
            refine .bind (paired.copyToUser process address rfl fun _ => rfl) ?_
            rintro ⟨outcome, after⟩ ⟨_, after'⟩ ⟨rfl, paired⟩
            exact .pure ⟨.same _ _, paired.toAlike, paired.first, paired.second⟩
        | copyFromUser process address buffer stackPointer =>
            refine .bind (paired.copyFromUser process address buffer) ?_
            rintro ⟨outcome, filled, after⟩ ⟨_, last, after'⟩ ⟨rfl, paired, size, equal⟩
            refine .pure ⟨?_, paired.toAlike, paired.first, paired.second⟩
            by_cases inside : secret process
            · exact .fetches process address buffer stackPointer outcome filled last inside size
            · obtain rfl : last = filled := equal inside
              exact .same _ _
        | _ => exact copy.elim
      · refine .mono (paired.quiet_alike copy) ?_
        rintro ⟨answer, after⟩ ⟨_, after'⟩ ⟨⟨rfl, alike⟩, consistent⟩
        exact ⟨.same _ _, alike, consistent⟩

/-- Carries out operations one after the other. The result lists them with their answers. -/
def transcript (vm : Vm arch) : List Operation → Run (List (Operation × Answer) × Vm arch)
  | [] => return ([], vm)
  | operation :: rest => do
    let (answer, vm) ← vm.step operation
    let (exchanges, vm) ← vm.transcript rest
    return ((operation, answer) :: exchanges, vm)

/-- The mapping exists at some time while the operations are carried out. -/
def Maps (vm : Vm arch) (operations : List Operation) (mapping : Mapping) : Prop :=
  ∃ prior last id, prior <+: operations ∧ vm.run? prior = some last ∧
    last.mappings.get? id = some mapping

/-- No file is mapped by a process of the set and by one outside it. -/
def KeepsApart (secret : ProcessId → Prop) (vm : Vm arch) (operations : List Operation) : Prop :=
  ∀ mapping another, vm.Maps operations mapping → vm.Maps operations another →
    another.segment.file = mapping.segment.file → secret mapping.owner → secret another.owner

/-- A file that some process of the set maps at some time. -/
def Taints (secret : ProcessId → Prop) (vm : Vm arch) (operations : List Operation)
    (file : FileId) : Prop :=
  ∃ mapping, vm.Maps operations mapping ∧ mapping.segment.file = file ∧ secret mapping.owner

theorem KeepsApart.separates {operations prior : List Operation} {last : Vm arch}
    (apart : vm.KeepsApart secret operations) (earlier : prior <+: operations)
    (ran : vm.run? prior = some last) :
    last.mappings.Separates secret (vm.Taints secret operations) := by
  intro id mapping live
  have mapped : vm.Maps operations mapping := ⟨prior, last, id, earlier, ran, live⟩
  constructor
  · rintro ⟨another, maps, same, inside⟩
    exact apart another mapping maps mapped same.symm inside
  · exact fun inside => ⟨mapping, mapped, rfl, inside⟩

theorem Paired.transcript (paired : vm.Paired secret hidden other)
    {operations others : List Operation}
    (same : List.Forall₂ (Operation.Alike secret) operations others)
    (separate : ∀ prior last, prior <+: operations → vm.run? prior = some last →
      last.mappings.Separates secret hidden) :
    (vm.transcript operations).Alike
      (fun left right => List.Forall₂ (fun exchange again =>
        Answer.Alike secret exchange.1 exchange.2 again.2) left.1 right.1 ∧
          left.2.Alike secret hidden right.2)
      (other.transcript others) := by
  induction same generalizing vm other with
  | nil => exact .pure ⟨.nil, paired.toAlike⟩
  | @cons operation another rest rests alike _ ih =>
      unfold Vm.transcript
      have stepped : (vm.step operation).Satisfies (fun _ => True) fun _ => True := .any
      refine .bind ((paired.step alike).and stepped.yielding .any) ?_
      rintro ⟨answer, after⟩ ⟨answer', after'⟩
        ⟨⟨answers, alike, first, second⟩, ⟨yields, _⟩, _⟩
      have run : ∀ prior, vm.run? (operation :: prior) = after.run? prior := by
        intro prior
        unfold Run.Yields at yields
        rw [run?, yields]
      have paired' : after.Paired secret hidden after' := by
        refine ⟨alike, first, second, separate [operation] after ?_ (run [])⟩
        exact List.prefix_append [operation] rest
      refine .bind (ih paired' fun prior last earlier ran => ?_) ?_
      · exact separate (operation :: prior) last (List.prefix_cons_inj operation |>.mpr earlier)
          ((run prior).trans ran)
      · rintro ⟨exchanges, last⟩ ⟨exchanges', last'⟩ ⟨alike, outcome⟩
        exact .pure ⟨.cons answers alike, outcome⟩

theorem Alike.refl (vm : Vm arch) : vm.Alike secret hidden vm :=
  ⟨⟨rfl, .refl vm.frames, rfl, rfl, .refl vm.swap, .refl vm.files⟩, fun _ _ => rfl⟩

theorem Twins.stats (twins : vm.Twins hidden other) : other.stats = vm.stats := by
  obtain ⟨contents, frames⟩ := twins.frames
  unfold Vm.stats SwapTable.capacity SwapTable.used
  rw [frames, twins.tenants.spaces, twins.tenants.mappings, twins.tenants.swap.slots]
  rfl

theorem Twins.entry? (twins : vm.Twins hidden other) (process : ProcessId)
    (address : VirtualAddress) : other.entry? process address = vm.entry? process address := by
  unfold Vm.entry?
  rw [twins.tenants.spaces]

theorem Twins.ownerOf (twins : vm.Twins hidden other) (frame : FrameNumber) :
    other.frames.ownerOf frame = vm.frames.ownerOf frame := by
  obtain ⟨contents, frames⟩ := twins.frames
  rw [frames]
  rfl

theorem userFrame_supplies (consistent : vm.Consistent fun _ => True) (process : ProcessId)
    (address : VirtualAddress) (write : Bool) :
    (vm.userFrame process address write stackPointer).Satisfies (fun _ => True)
      fun (_, after) => vm.layout.Supplies after.layout := by
  refine .mono (userFrame_satisfies consistent process address write stackPointer) ?_
  rintro ⟨result, after⟩ ⟨_, _, outcome⟩
  cases result with
  | error cause => exact Layout.supplies_of_upholds (Layout.upholds_of_moves outcome)
  | ok frame =>
      obtain ⟨middle, reach, _, layout⟩ := outcome
      -- what an access marks on the page is not part of its contents
      have same : vm.layout.Supplies after.layout ↔ vm.layout.Supplies middle := by
        rw [layout]
        exact .rfl
      refine same.mpr ?_
      cases reach with
      | here => exact .refl vm.layout
      | brought middle frame moved path arrival away =>
          exact Layout.supplies_of_arrival path arrival away

/-- Processes are isolated. If a state is left by the same operations twice, but for the bytes
that processes of a set copy into their memory, and no file is mapped by a process of the set
and by one outside it, then the same is logged and answered, but for the bytes that processes of
the set copy from their memory; the same is resident and in use; and files hold the same, but
for those that the set maps. No page shows what an earlier owner left in its frame: what it holds
after an operation that copies nothing, or after one of the accesses a copy is made of, it held
before, or its file gave it, or is zeros. -/
theorem Reachable.isolates (reachable : vm.Reachable) {operations others : List Operation}
    (same : List.Forall₂ (Operation.Alike secret) operations others)
    (apart : vm.KeepsApart secret operations) :
    (vm.transcript operations).Alike
      (fun (exchanges, last) (exchanges', last') =>
        List.Forall₂ (fun exchange again =>
          Answer.Alike secret exchange.1 exchange.2 again.2) exchanges exchanges' ∧
        last'.stats = last.stats ∧
        (∀ process address, last'.entry? process address = last.entry? process address) ∧
        (∀ frame, last'.frames.ownerOf frame = last.frames.ownerOf frame) ∧
        (∀ file, ¬vm.Taints secret operations file → last'.files.get file = last.files.get file) ∧
        last.Alike secret (vm.Taints secret operations) last')
      (vm.transcript others) ∧
    (∀ operation answer after, ¬operation.IsCopy →
      (vm.step operation).Yields (answer, after) → vm.layout.Supplies after.layout) ∧
    ∀ process address write stackPointer result after,
      (vm.userFrame process address write stackPointer).Yields (result, after) →
        vm.layout.Supplies after.layout := by
  have consistent := reachable.consistent
  refine ⟨?_, ?_, ?_⟩
  · have paired : vm.Paired secret (vm.Taints secret operations) vm :=
      ⟨.refl vm, consistent, consistent, apart.separates List.nil_prefix rfl⟩
    refine .mono (paired.transcript same fun prior last => apart.separates) ?_
    rintro ⟨exchanges, last⟩ ⟨exchanges', last'⟩ ⟨answers, alike⟩
    exact ⟨answers, alike.stats, alike.entry?, alike.ownerOf, alike.tenants.files.same, alike⟩
  · intro operation answer after quiet yields
    have keeps := (step_satisfies consistent
      (operation.tolerable_of_forall (fun _ => trivial) vm)).of_yields yields
    exact Layout.supplies_of_effect (keeps.2.2 quiet)
  · intro process address write stackPointer result after yields
    exact (userFrame_supplies consistent process address write).of_yields yields

/-- A process copies a byte to its page, another process reads a file through the same frame, and
the first one reads its page again. -/
def takeover (byte : UInt8) : List Operation :=
  [.createProcess ⟨1⟩, .createProcess ⟨2⟩, .installPage ⟨1⟩ ⟨0x1000⟩ true,
    .copyToUser ⟨1⟩ ⟨0x1000⟩ #[byte] ⟨0⟩, .createMapping ⟨2⟩ ⟨0⟩ ⟨0x2000⟩ 3,
    .copyFromUser ⟨2⟩ ⟨0x2000⟩ #[0, 0, 0, 0] ⟨0⟩, .copyFromUser ⟨1⟩ ⟨0x1000⟩ #[0] ⟨0⟩]

theorem takeover_alike (byte last : UInt8) :
    List.Forall₂ (Operation.Alike (· = ⟨1⟩)) (takeover byte) (takeover last) :=
  .cons (.same _) <| .cons (.same _) <| .cons (.same _) <|
    .cons (.stores _ _ _ _ _ rfl rfl) <| .cons (.same _) <| .cons (.same _) <|
      .cons (.same _) .nil

theorem takeover_apart : oneFrame.KeepsApart (· = ⟨1⟩) (takeover 7) := by
  have none : ((takeover 7).inits.all fun prior => (oneFrame.run? prior).all fun last =>
      (last.mappings.ownedBy ⟨1⟩).isEmpty) = true := by
    decide +kernel
  rintro mapping another ⟨prior, last, id, earlier, ran, live⟩ _ _ inside
  have unmapped := List.all_eq_true.mp none prior (((List.mem_inits _ _).mpr earlier))
  rw [ran] at unmapped
  have owned : id ∈ last.mappings.ownedBy ⟨1⟩ :=
    MappingTable.mem_ownedBy.mpr ⟨mapping, live, inside⟩
  rw [List.isEmpty_iff.mp unmapped] at owned
  cases owned

theorem isolates_takeover : List.Forall₂ (Operation.Alike (· = ⟨1⟩)) (takeover 7) (takeover 9) ∧
    oneFrame.KeepsApart (· = ⟨1⟩) (takeover 7) ∧ ∃ exchanges last exchanges' last',
      (oneFrame.transcript (takeover 7)).Yields (exchanges, last) ∧
      (oneFrame.transcript (takeover 9)).Yields (exchanges', last') ∧
      List.Forall₂ (fun exchange again =>
        Answer.Alike (· = ⟨1⟩) exchange.1 exchange.2 again.2) exchanges exchanges' ∧
      last'.stats = last.stats := by
  have passes : ((oneFrame.transcript (takeover 7)).passes fun (exchanges, _) =>
      exchanges.length == 7) = true := by
    decide +kernel
  obtain ⟨⟨exchanges, last⟩, ends, _⟩ := Run.passes_iff.mp passes
  have isolates := Reachable.isolates (.boot oneFrame_booted) (takeover_alike 7 9) takeover_apart
  obtain ⟨⟨exchanges', last'⟩, ends', answers, stats, _⟩ := isolates.1.exists_yields ends
  exact ⟨takeover_alike 7 9, takeover_apart, exchanges, last, exchanges', last', ends, ends',
    answers, stats⟩

end Vm
end DemandPaging
