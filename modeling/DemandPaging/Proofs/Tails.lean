import DemandPaging.Proofs.Imprint
import DemandPaging.Proofs.Placement

/-!
Pages that a file backs in part. The bytes behind the file's part of such a page are in the
frame of the page and nowhere else: when the page leaves its frame the file takes its own part
of it, and when the page comes back the rest of it is zeros.
-/

namespace DemandPaging

variable {arch : Architecture} {tolerated : Violation → Prop}

namespace Vm

variable {vm after : Vm arch} {imprint : Imprint} {process : ProcessId} {base : VirtualAddress}
  {bytes taken : Bytes} {wanted : UserPage → Nat → Prop} {layout moved : Layout} {stop : Nat}
  {piece : RangePiece}

/-- The bytes of a range from `base` to `stop` are in the imprint where that is wanted. -/
def Matches (process : ProcessId) (base : VirtualAddress) (bytes : Bytes)
    (wanted : UserPage → Nat → Prop) (imprint : Imprint) (stop : Nat) : Prop :=
  ∀ i, i < stop →
    wanted (process, (⟨base.value + i⟩ : VirtualAddress).page)
      (⟨base.value + i⟩ : VirtualAddress).offset →
    bytes[i]? = (imprint (process, (⟨base.value + i⟩ : VirtualAddress).page))[
      (⟨base.value + i⟩ : VirtualAddress).offset]?

/-- What is known while bytes are copied to or from user memory, of which those up to `stop`
have been copied. A page that bytes on both sides of `stop` are in is in its frame, so that
the rest of the copy does not begin it anew. -/
structure Imprinting (process : ProcessId) (base : VirtualAddress) (bytes : Bytes)
    (wanted : UserPage → Nat → Prop) (layout : Layout) (imprint : Imprint) (stop : Nat) :
    Prop where
  bears : layout.Bears imprint
  copied : Matches process base bytes wanted imprint stop
  near : ∀ i j, i < stop → stop ≤ j →
    (⟨base.value + i⟩ : VirtualAddress).page = (⟨base.value + j⟩ : VirtualAddress).page →
      layout.resident (process, (⟨base.value + i⟩ : VirtualAddress).page) = true

namespace Imprinting

theorem start (bears : layout.Bears imprint) (process : ProcessId) (base : VirtualAddress)
    (bytes : Bytes) (wanted : UserPage → Nat → Prop) :
    Imprinting process base bytes wanted layout imprint 0 :=
  ⟨bears, fun i small => absurd small (Nat.not_lt_zero i),
    fun i _ small => absurd small (Nat.not_lt_zero i)⟩

theorem renew_eq (imprinting : Imprinting process base bytes wanted layout imprint stop)
    (place : piece.address.value = base.value + stop)
    (reach : Reach (process, piece.address.page) layout moved) {i : Nat} (before : i < stop) :
    imprint.renew layout moved (process, (⟨base.value + i⟩ : VirtualAddress).page) =
      imprint (process, (⟨base.value + i⟩ : VirtualAddress).page) := by
  apply Imprint.renew_of_reach reach
  intro same
  have next : (⟨base.value + stop⟩ : VirtualAddress) = piece.address := by
    rw [← place]
  rw [← same]
  apply imprinting.near i stop before (Nat.le_refl stop)
  rw [next]
  exact (Prod.ext_iff.mp same).2

theorem near_next (place : piece.address.value = base.value + stop)
    (fits : piece.address.offset + piece.length ≤ pageSize)
    (resident : moved.resident (process, piece.address.page) = true) (i j : Nat)
    (before : i < stop + piece.length) (later : stop + piece.length ≤ j)
    (same : (⟨base.value + i⟩ : VirtualAddress).page = (⟨base.value + j⟩ : VirtualAddress).page) :
    moved.resident (process, (⟨base.value + i⟩ : VirtualAddress).page) = true := by
  have here : (⟨base.value + i⟩ : VirtualAddress).page = piece.address.page := by
    by_cases earlier : i < stop
    · simp only [Address.page, Number.ext_iff, pageSize] at same ⊢
      omega
    · exact (RangePiece.place_of_mem place fits (Nat.not_lt.mp earlier) before).1
  rw [here]
  exact resident

theorem moves (imprinting : Imprinting process base bytes wanted layout imprint stop)
    (path : Relation.ReflTransGen Shift layout moved) :
    moved.Bears (imprint.renew layout moved) ∧
      Matches process base bytes wanted (imprint.renew layout moved) stop := by
  refine ⟨imprinting.bears.fades (.moves path), ?_⟩
  rw [Imprint.renew_of_fades (.moves path)]
  exact imprinting.copied

theorem fetched (imprinting : Imprinting process base bytes wanted layout imprint stop)
    (sound : layout.Sound tolerated) (place : piece.address.value = base.value + stop)
    (fits : piece.address.offset + piece.length ≤ pageSize)
    (within : stop + piece.length ≤ bytes.size)
    (fetched : Fetched process piece taken layout moved)
    (tails : ∀ page offset, wanted page offset → moved.Tail page offset) :
    Imprinting process base (bytes.overwrite stop taken) wanted moved
      (imprint.renew layout moved) (stop + piece.length) := by
  obtain ⟨frame, reach, grants, slice⟩ := fetched
  obtain ⟨entry, present, resident, _⟩ := grants
  have backs : moved.Backs (process, piece.address.page) (.frame frame) := ⟨entry, present, resident⟩
  have bears := imprinting.bears.reach sound reach
  have size : taken.size = piece.length := by
    rw [slice]
    exact Page.size_slice _ fits
  refine ⟨bears, fun i small tail => ?_,
    near_next place fits (Layout.resident_iff.mpr ⟨frame, backs⟩)⟩
  by_cases before : i < stop
  · rw [imprinting.renew_eq place reach before, Bytes.getElem?_overwrite, if_neg (by omega)]
    exact imprinting.copied i before tail
  · obtain ⟨page, offset⟩ := RangePiece.place_of_mem place fits (Nat.not_lt.mp before) small
    rw [page, offset] at tail ⊢
    rw [← bears _ frame _ backs (tails _ _ tail), Bytes.getElem?_overwrite, if_pos (by omega),
      slice, Page.getElem?_slice _ _ (by omega)]

theorem stored (imprinting : Imprinting process base bytes wanted layout imprint stop)
    (sound : layout.Sound tolerated) (place : piece.address.value = base.value + stop)
    (fits : piece.address.offset + piece.length ≤ pageSize)
    (within : stop + piece.length ≤ bytes.size)
    (stored : Stored process piece (bytes.extract stop (stop + piece.length)) layout moved) :
    Imprinting process base bytes wanted moved ((imprint.renew layout moved).store
      (process, piece.address.page) piece.address.offset
      (bytes.extract stop (stop + piece.length))) (stop + piece.length) := by
  obtain ⟨middle, frame, reach, grants, layout_eq⟩ := stored
  have backs : middle.Backs (process, piece.address.page) (.frame frame) := by
    obtain ⟨entry, present, resident, _⟩ := grants
    exact ⟨entry, present, resident⟩
  subst layout_eq
  have bears := (imprinting.bears.reach sound reach).write (sound.reach reach) grants
    piece.address.offset (bytes.extract stop (stop + piece.length))
  refine ⟨bears, fun i small want => ?_,
    near_next place fits (Layout.resident_iff.mpr ⟨frame, backs⟩)⟩
  have bound : (⟨base.value + i⟩ : VirtualAddress).offset < pageSize := Nat.mod_lt _ (by decide)
  change _ = (Function.update (imprint.renew layout middle) _ _ _)[_]?
  by_cases before : i < stop
  · have kept := imprinting.copied i before want
    rw [← imprinting.renew_eq place reach before] at kept
    rw [Function.update_apply]
    split
    · rename_i same
      have page := (Prod.ext_iff.mp same).2
      have below := RangePiece.offset_lt place before page
      rw [Page.getElem?_overwrite _ _ _ bound, if_neg (by omega), ← same]
      exact kept
    · exact kept
  · obtain ⟨page, offset⟩ := RangePiece.place_of_mem place fits (Nat.not_lt.mp before) small
    rw [offset] at bound
    rw [page, offset, Function.update_self, Page.getElem?_overwrite _ _ _ bound,
      Nat.add_sub_cancel_left, Array.size_extract, if_pos (by omega), Array.getElem?_extract,
      if_pos (by omega)]
    congr 1
    omega

end Imprinting

theorem copyToUser_imprints (bears : vm.layout.Bears imprint) (consistent : vm.Consistent tolerated)
    (process : ProcessId) (address : VirtualAddress) (data : Bytes)
    (stackPointer : VirtualAddress) :
    (vm.copyToUser process address data stackPointer).Satisfies tolerated fun (outcome, last) =>
      last.layout.Bears (imprint.after vm (.copyToUser process address data stackPointer)) ∧
        Matches process address data (fun _ _ => True)
          (imprint.after vm (.copyToUser process address data stackPointer)) outcome.copied := by
  refine Follower.copyToUser_follows
    (fun stop layout imprint =>
      Imprinting process address data (fun _ _ => True) layout imprint stop)
    (fun stop layout imprint => layout.Bears imprint ∧
      Matches process address data (fun _ _ => True) imprint stop)
    ?_ ?_ ?_ consistent (.start bears process address data _)
  · intro stop piece layout moved imprint sound imprinting place fits within stored
    exact imprinting.stored sound place fits within stored
  · intro stop layout moved imprint imprinting path
    exact imprinting.moves path
  · intro stop layout imprint imprinting
    exact ⟨imprinting.bears, imprinting.copied⟩

theorem copyFromUser_imprints (bears : vm.layout.Bears imprint)
    (consistent : vm.Consistent tolerated) (process : ProcessId) (address : VirtualAddress)
    (buffer : Bytes) (stackPointer : VirtualAddress) :
    (vm.copyFromUser process address buffer stackPointer).Satisfies tolerated
      fun (outcome, filled, last) =>
        last.layout.Bears (imprint.after vm (.copyFromUser process address buffer stackPointer)) ∧
          Matches process address filled vm.layout.Tail
            (imprint.after vm (.copyFromUser process address buffer stackPointer))
            outcome.copied := by
  refine Follower.copyFromUser_follows
    (fun stop filled layout imprint => vm.layout.Persists layout ∧
      Imprinting process address filled vm.layout.Tail layout imprint stop)
    (fun stop filled layout imprint => layout.Bears imprint ∧
      Matches process address filled vm.layout.Tail imprint stop)
    ?_ ?_ ?_ consistent ⟨.refl vm.layout, .start bears process address buffer _⟩
  · intro stop piece filled taken layout moved imprint sound full ⟨persists, imprinting⟩ place fits
      within fetched
    have persists' : vm.layout.Persists moved := by
      obtain ⟨_, reach, _⟩ := fetched
      exact persists.trans (.reach reach)
    exact ⟨persists', imprinting.fetched sound place fits (full ▸ within) fetched
      fun page offset tail => tail.persists persists'⟩
  · intro stop filled layout moved imprint ⟨_, imprinting⟩ path
    exact imprinting.moves path
  · intro stop filled layout imprint ⟨_, imprinting⟩
    exact ⟨imprinting.bears, imprinting.copied⟩

/-- A state that some run of operations leads to, with the imprint that was followed on the
way. -/
abbrev Followed (vm : Vm arch) (imprint : Imprint) : Prop :=
  Imprint.follower.Reaches (fun _ => Page.zero) vm imprint

/-- In every state the tails of pages in frames are what the imprint says. -/
theorem Followed.bears (followed : Followed vm imprint) : vm.layout.Bears imprint := by
  induction followed with
  | boot booted =>
      intro page frame offset backs
      obtain ⟨entry, found, _⟩ := backs
      exact absurd ((booted.empty.1 page).symm.trans found) (by simp)
  | @step vm after imprint operation answer followed yields ih =>
      have consistent := followed.reachable.consistent
      cases course_of_yields consistent yields with
      | stored process address data stackPointer outcome copied =>
          exact ((copyToUser_imprints ih consistent process address data stackPointer).of_yields
            copied).1
      | fetched process address buffer stackPointer outcome filled copied =>
          exact ((copyFromUser_imprints ih consistent process address buffer
            stackPointer).of_yields copied).1
      | other _ _ quiet effect =>
          rw [Follower.after_of_yields quiet yields]
          exact ih.effect (consistent.tenants.sound _) effect

/-- Whether the operation stores bytes within one page, and this byte is one of them. -/
def Operation.Stores (page : UserPage) (offset : Nat) : Operation → Prop
  | .copyToUser process address data _ =>
    page = (process, address.page) ∧ address.offset ≤ offset ∧ offset < address.offset + data.size
  | _ => False

theorem imprint_of_brief {operation : Operation} {page : UserPage} {offset : Nat}
    (small : offset < pageSize) (brief : operation.IsBrief)
    (apart : ¬operation.Stores page offset) (resident : vm.layout.resident page = true) :
    (imprint.after vm operation page)[offset]? = (imprint page)[offset]? := by
  have kept : ∀ moved, imprint.renew vm.layout moved page = imprint page :=
    fun moved => Imprint.renew_of_resident resident
  obtain same | ⟨moved, same | ⟨process, address, data, stackPointer, rfl, same⟩⟩ :=
    Imprint.follower.after_of_brief brief
  · rw [Imprint.after, same]
  · rw [Imprint.after, same]
    exact congrArg (fun page : Page => page[offset]?) (kept moved)
  · rw [Imprint.after, same]
    change ((imprint.renew vm.layout moved).store (process, address.page) address.offset data
      page)[offset]? = _
    rw [Imprint.store, Function.update_apply]
    split
    · rename_i here
      have outside : ¬(address.offset ≤ offset ∧ offset - address.offset < data.size) :=
        fun inside => apart ⟨here, inside.1, by omega⟩
      rw [Page.getElem?_overwrite _ _ _ small, if_neg outside, ← here, kept]
    · rw [kept]

theorem tail_of_live (reachable : Reachable vm) {id : MappingId} {mapping : Mapping}
    {page : PageNumber} {offset : Nat} (live : vm.mappings.get? id = some mapping)
    (tail : mapping.Tail page offset) : vm.layout.Tail (mapping.owner, page) offset := by
  obtain ⟨entry, found, belongs⟩ := reachable.placement.listed id mapping page live tail.contains
  have found : vm.layout.entry (mapping.owner, page) = some entry := found
  refine ⟨entry.writable, id, mapping, ?_, live, tail⟩
  simp only [Layout.role, found, Option.map_some, belongs]

theorem place_of_value {address : VirtualAddress} {page : PageNumber} {offset i : Nat}
    (small : offset < pageSize)
    (place : address.value + i = page.value * pageSize + offset) :
    (⟨address.value + i⟩ : VirtualAddress).page = page ∧
      (⟨address.value + i⟩ : VirtualAddress).offset = offset := by
  simp only [Address.page, Address.offset, Number.ext_iff, pageSize] at small place ⊢
  omega

/-- The bytes behind the file's part of a page last as long as the page stays in its frame. Such
a page is in a frame or in the file, and never in swap. What is copied to such a byte is in the
imprint, and what is copied from it is what the imprint has there. While the page is in its
frame, operations that deal with one page at a time do not change the byte unless they store
there. When the page is in no frame the byte is lost: it is zero the next time it is copied,
whatever was stored there before. -/
theorem Followed.tail_volatile (followed : Followed vm imprint) {id : MappingId} {mapping : Mapping}
    {page : PageNumber} {offset : Nat} (live : vm.mappings.get? id = some mapping)
    (tail : mapping.Tail page offset) :
    (∃ entry, vm.entryAt (mapping.owner, page) = some entry ∧ entry.mapping = some id ∧
      (entry.backing = .file id ∨ ∃ frame, entry.backing = .frame frame)) ∧
    (∀ address data stackPointer outcome after,
      (vm.copyToUser mapping.owner address data stackPointer).Yields (outcome, after) →
        ∀ i, i < outcome.copied → address.value + i = page.value * pageSize + offset →
          data[i]? = (imprint.after vm (.copyToUser mapping.owner address data stackPointer)
            (mapping.owner, page))[offset]?) ∧
    (∀ address buffer stackPointer outcome filled after,
      (vm.copyFromUser mapping.owner address buffer stackPointer).Yields
        (outcome, filled, after) →
          ∀ i, i < outcome.copied → address.value + i = page.value * pageSize + offset →
            filled[i]? = (imprint.after vm (.copyFromUser mapping.owner address buffer
              stackPointer) (mapping.owner, page))[offset]? ∧
            (vm.layout.resident (mapping.owner, page) = false → filled[i]? = some 0)) ∧
    ∀ operation, operation.IsBrief → ¬operation.Stores (mapping.owner, page) offset →
      vm.layout.resident (mapping.owner, page) = true →
        (imprint.after vm operation (mapping.owner, page))[offset]? =
          (imprint (mapping.owner, page))[offset]? := by
  have consistent := followed.reachable.consistent
  have placed := followed.reachable.placement
  have known := tail_of_live followed.reachable live tail
  refine ⟨?_, ?_, ?_, ?_⟩
  · obtain ⟨entry, found, belongs⟩ := placed.listed id mapping page live tail.contains
    refine ⟨entry, found, belongs, ?_⟩
    cases source : entry.backing with
    | frame frame => exact .inr ⟨frame, rfl⟩
    | file named =>
        have same := placed.filed _ _ entry named found source
        rw [belongs] at same
        exact .inl (congrArg Backing.file (Option.some.inj same).symm)
    | swap slot =>
        have kept := placed.swapped _ _ entry slot id mapping found source belongs live
        rw [tail.evictsToFile] at kept
        cases kept
  · intro address data stackPointer outcome after yields i small place
    obtain ⟨_, copied⟩ := (copyToUser_imprints followed.bears consistent mapping.owner address data
      stackPointer).of_yields yields
    obtain ⟨here, there⟩ := place_of_value tail.small place
    have byte := copied i small trivial
    rwa [here, there] at byte
  · intro address buffer stackPointer outcome filled after yields i small place
    obtain ⟨here, there⟩ := place_of_value tail.small place
    have fetched : ∀ imprint : Imprint, vm.layout.Bears imprint →
        filled[i]? = (imprint.after vm (.copyFromUser mapping.owner address buffer
          stackPointer) (mapping.owner, page))[offset]? := by
      intro imprint bears
      obtain ⟨_, copied⟩ := (copyFromUser_imprints bears consistent mapping.owner address buffer
        stackPointer).of_yields yields
      have byte := copied i small
      rw [here, there] at byte
      exact byte known
    refine ⟨fetched imprint followed.bears, fun away => ?_⟩
    -- what the imprint has for a page that is in no frame does not matter, so it may as well be zeros
    have blank : vm.layout.Bears (Function.update imprint (mapping.owner, page) Page.zero) := by
      intro other frame offset backs tail
      rw [Function.update_of_ne]
      · exact followed.bears other frame offset backs tail
      · intro same
        rw [same] at backs
        rw [Layout.resident_iff.mpr ⟨frame, backs⟩] at away
        cases away
    have zeros := Imprint.follower.after_copyFromUser_keeps
      (fun imprint => imprint (mapping.owner, page) = Page.zero)
      (fun imprint before after zeros => Imprint.renew_zero zeros) vm mapping.owner address buffer
      stackPointer (Function.update_self (mapping.owner, page) Page.zero imprint)
    rw [fetched _ blank]
    exact (congrArg (fun page : Page => page[offset]?) zeros).trans (by simp [Page.zero, tail.small])
  · intro operation brief apart resident
    exact imprint_of_brief tail.small brief apart resident

def threeBytes : Mapping :=
  ⟨⟨1⟩, ⟨1⟩, .wholeFile ⟨0⟩ 3 ⟨0x1000⟩ 5000⟩

theorem threeBytes_tail : threeBytes.Tail ⟨1⟩ 5 := by
  have found : threeBytes.fileRange ⟨1⟩ = .ok ⟨0, 3⟩ := by
    cbv
  exact ⟨rfl, rfl, by decide, ⟨0, 3⟩, found, by decide, by decide⟩

/-- A byte behind the file's part of a page is zero after the page has been moved to the file. -/
theorem tail_after_eviction : ∃ (vm last : Vm .scaleModel) (imprint : Imprint)
    (outcome : CopyOutcome) (filled : Bytes), Followed vm imprint ∧
      vm.mappings.get? ⟨1⟩ = some threeBytes ∧ threeBytes.Tail ⟨1⟩ 5 ∧
      vm.layout.resident (⟨1⟩, ⟨1⟩) = false ∧
      (vm.copyFromUser ⟨1⟩ ⟨0x1005⟩ #[1] ⟨0⟩).Yields (outcome, filled, last) ∧
      0 < outcome.copied ∧ filled[0]? = some 0 := by
  have passes : (oneFrame.run? [.createProcess ⟨1⟩, .createMapping ⟨1⟩ ⟨0⟩ ⟨0x1000⟩ 5000,
      .copyToUser ⟨1⟩ ⟨0x1005⟩ #[9] ⟨0⟩, .installPage ⟨1⟩ ⟨0x3000⟩ true]).any
      (fun vm => decide (vm.mappings.get? ⟨1⟩ = some threeBytes) &&
        !vm.layout.resident (⟨1⟩, ⟨1⟩) &&
        (vm.copyFromUser ⟨1⟩ ⟨0x1005⟩ #[1] ⟨0⟩).passes fun (outcome, _, _) =>
          decide (0 < outcome.copied)) = true := by
    decide +kernel
  simp only [Option.any_eq_true _ _, Run.passes_iff, Bool.and_eq_true, Bool.not_eq_true',
    Prod.exists, decide_eq_true_eq] at passes
  obtain ⟨vm, ran, ⟨live, away⟩, outcome, filled, last, read, copied⟩ := passes
  obtain ⟨imprint, followed⟩ := (Follower.Reaches.boot oneFrame_booted).run ran
  obtain ⟨_, _, fetched, _⟩ := Followed.tail_volatile followed live threeBytes_tail
  exact ⟨vm, last, imprint, outcome, filled, followed, live, threeBytes_tail, away, read, copied,
    (fetched _ _ _ _ _ _ read 0 copied rfl).2 away⟩

/-- A byte is copied to the page of a writable mapping, behind the file's part of it. The page is
moved to the file, and the byte that is then copied from there is another one. -/
theorem tail_lost : ∃ (vm stored evicted last : Vm .scaleModel) (outcome again : CopyOutcome)
    (answer : Answer) (filled : Bytes), Reachable vm ∧
      (vm.copyToUser ⟨1⟩ ⟨0x1005⟩ #[9] ⟨0⟩).Yields (outcome, stored) ∧ outcome.copied = 1 ∧
      (stored.step (.installPage ⟨1⟩ ⟨0x3000⟩ true)).Yields (answer, evicted) ∧
      evicted.mappings.get? ⟨1⟩ = some threeBytes ∧ threeBytes.Tail ⟨1⟩ 5 ∧
      (evicted.copyFromUser ⟨1⟩ ⟨0x1005⟩ #[1] ⟨0⟩).Yields (again, filled, last) ∧
      again.copied = 1 ∧ filled = #[0] := by
  have passes : (oneFrame.run? [.createProcess ⟨1⟩, .createMapping ⟨1⟩ ⟨0⟩ ⟨0x1000⟩ 5000]).any
      (fun vm => (vm.copyToUser ⟨1⟩ ⟨0x1005⟩ #[9] ⟨0⟩).passes fun (outcome, stored) =>
        decide (outcome.copied = 1) &&
        (stored.step (.installPage ⟨1⟩ ⟨0x3000⟩ true)).passes fun (_, evicted) =>
          decide (evicted.mappings.get? ⟨1⟩ = some threeBytes) &&
          (evicted.copyFromUser ⟨1⟩ ⟨0x1005⟩ #[1] ⟨0⟩).passes fun (again, filled, _) =>
            decide (again.copied = 1) && decide (filled = #[0])) = true := by
    decide +kernel
  simp only [Option.any_eq_true _ _, Run.passes_iff, Bool.and_eq_true, Prod.exists,
    decide_eq_true_eq] at passes
  obtain ⟨vm, ran, outcome, stored, written, copied, answer, evicted, installed, live, again,
    filled, last, read, copied', lost⟩ := passes
  exact ⟨vm, stored, evicted, last, outcome, again, answer, filled,
    (Reachable.boot oneFrame_booted).run ran, written, copied, installed, live, threeBytes_tail,
    read, copied', lost⟩

end Vm
end DemandPaging
