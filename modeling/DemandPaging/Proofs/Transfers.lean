import DemandPaging.Proofs.Isolation
import DemandPaging.Proofs.Ownership
import DemandPaging.Proofs.Readable
import DemandPaging.Proofs.Refusals

/-!
The bytes that a copy transfers. A copy makes the page of the next byte accessible and transfers
what its range has on that page, until no byte is left or a page cannot be made accessible. Pages
may leave their frames on the way, even one whose bytes have just been transferred. So what has
been transferred is followed along the copy: it is there wherever its page lives, and nothing
else has been changed.
-/

namespace DemandPaging

variable {arch : Architecture} {tolerated : Violation → Prop}

/-- The range does not fit in a machine word, or does not end in user space. -/
def Exceeds (arch : Architecture) (address : VirtualAddress) (length : Nat) : Prop :=
  wordLimit ≤ address.value + length ∨ arch.userLimit < address.value + length

theorem not_exceeds_iff {address : VirtualAddress} {length : Nat} :
    ¬Exceeds arch address length ↔ address.value + length ≤ arch.userLimit := by
  have limit : arch.userLimit < wordLimit := by cases arch <;> decide
  unfold Exceeds
  omega

/-- Where a byte of the range from `base` on is: its page, and its offset there. -/
def placeOf (base : VirtualAddress) (index : Nat) : PageNumber × Nat :=
  let address : VirtualAddress := ⟨base.value + index⟩
  (address.page, address.offset)

def placesOf (base : VirtualAddress) (length : Nat) : List (PageNumber × Nat) :=
  (List.range length).map (placeOf base)

namespace RangePiece

variable {base : VirtualAddress} {piece : RangePiece} {start length i : Nat}

def places (piece : RangePiece) : List (PageNumber × Nat) :=
  (List.range piece.length).map fun i => (piece.address.page, piece.address.offset + i)

theorem placeOf_add (place : piece.address.value = base.value + start)
    (fits : piece.address.offset + piece.length ≤ pageSize) (small : i < piece.length) :
    placeOf base (start + i) = (piece.address.page, piece.address.offset + i) := by
  obtain ⟨page, offset⟩ := place_of_mem place fits (Nat.le_add_right start i)
    (Nat.add_lt_add_left small start)
  rw [Nat.add_sub_cancel_left] at offset
  exact Prod.ext page offset

theorem placesOf_append (place : piece.address.value = base.value + start)
    (fits : piece.address.offset + piece.length ≤ pageSize) :
    placesOf base (start + piece.length) = placesOf base start ++ piece.places := by
  unfold placesOf places
  rw [List.range_add, List.map_append, List.map_map]
  refine congrArg _ (List.map_congr_left fun i member => ?_)
  exact placeOf_add place fits (List.mem_range.mp member)

/-- A piece has bytes, and starts where its range or where a page does. -/
def Opens (base : VirtualAddress) (piece : RangePiece) : Prop :=
  0 < piece.length ∧ (piece.address = base ∨ piece.address.offset = 0)

theorem Opens.aligned (opens : piece.Opens base)
    (place : piece.address.value = base.value + start) :
    start = 0 ∨ (⟨base.value + start⟩ : VirtualAddress).offset = 0 := by
  obtain ⟨_, rfl | aligned⟩ := opens
  · omega
  · rw [Address.ext (place : _ = (⟨base.value + start⟩ : VirtualAddress).value)] at aligned
    exact .inr aligned

theorem opens_of_mem (member : piece ∈ ofRange base length) : piece.Opens base :=
  ⟨(opens_of_mem_ofRange member).1, (opens_of_mem_ofRange member).2.2⟩

theorem placeOf_ne_of_lt (place : piece.address.value = base.value + start)
    (opens : piece.Opens base) (before : i < start) :
    (placeOf base i).1 ≠ piece.address.page := by
  intro same
  have below := offset_lt place before same
  obtain ⟨_, rfl | aligned⟩ := opens
  · omega
  · omega

end RangePiece

namespace Layout

variable {layout moved : Layout} {page other : UserPage}

theorem Upholds.trans {last : Layout} (first : layout.Upholds moved page)
    (second : moved.Upholds last page) : layout.Upholds last page :=
  fun contents holds => first contents (second contents holds)

theorem upholds_of_arrival {frame : FrameNumber} (arrival : Arrival page frame layout moved)
    (apart : other ≠ page) : layout.Upholds moved other := by
  have arrived : ∀ (contents : Page) (entry : PageEntry),
      (∀ another, ¬layout.Backs another (.frame frame)) →
        layout.Upholds ((layout.fillFrame frame contents).place page (some entry)) other := by
    intro contents entry idle
    refine .of_eq ((contentsOf_place_of_ne apart _).trans ?_)
    exact contentsOf_of_backs (contents?_fillFrame idle contents) rfl other
  cases arrival with
  | fresh _ idle | swapped _ _ idle | filed _ _ _ _ _ idle => exact arrived _ _ idle

end Layout

theorem Reach.upholds {page other : UserPage} {layout moved : Layout}
    (reach : Reach page layout moved) (apart : other ≠ page) : layout.Upholds moved other := by
  cases reach with
  | here => exact .of_eq rfl
  | brought middle frame moved path arrival =>
      exact (Layout.upholds_of_moves path other).trans (Layout.upholds_of_arrival arrival apart)

namespace FrameTable

variable {table : FrameTable arch} {frame : FrameNumber}

theorem bytes_of_reached (reached : table.pool.reach frame = .ok ()) :
    table.bytes frame = .ok (table.pool.page frame) := by
  unfold bytes FramePool.bytes
  rw [reached]
  rfl

theorem read_of_reached (reached : table.pool.reach frame = .ok ()) {start length : Nat}
    (fits : start + length ≤ pageSize) :
    table.read frame start length = .ok ((table.pool.page frame).slice start length) := by
  have word : Word.add start length = .ok (start + length) :=
    if_pos (Nat.lt_of_le_of_lt fits (by decide))
  have bytes : table.pool.bytes frame = .ok (table.pool.page frame) := bytes_of_reached reached
  unfold read FramePool.read require
  rw [bytes, Checked.ok_bind, word, Checked.ok_bind, if_pos fits]
  rfl

theorem write_of_reached (reached : table.pool.reach frame = .ok ()) {start : Nat}
    {source : Bytes} (fits : start + source.size ≤ pageSize) :
    table.write frame start source =
      .ok (table.refill frame ((table.pool.page frame).overwrite start source)) := by
  have word : Word.add start source.size = .ok (start + source.size) :=
    if_pos (Nat.lt_of_le_of_lt fits (by decide))
  have read : table.pool.bytes frame = .ok (table.pool.page frame) := bytes_of_reached reached
  unfold write FramePool.write FramePool.setBytes require
  rw [read, Checked.ok_bind, word, Checked.ok_bind, if_pos fits, Checked.ok_bind, reached]
  rfl

end FrameTable

namespace Vm

variable {vm origin middle used after : Vm arch} {process : ProcessId} {page : UserPage}
  {base stackPointer : VirtualAddress} {buffer filled : Bytes} {write : Bool}
  {frame : FrameNumber} {piece : RangePiece} {stop : Nat}

/-- Transfers what a piece has on its page: from the buffer to the frame if it is written, and
from the frame to the buffer otherwise. -/
def transfer (vm : Vm arch) (frame : FrameNumber) (piece : RangePiece) (start : Nat)
    (write : Bool) (buffer : Bytes) : Bytes × Vm arch :=
  let contents := vm.frames.pool.page frame
  if write then
    let source := buffer.extract start (start + piece.length)
    let frames := vm.frames.refill frame (contents.overwrite piece.address.offset source)
    (buffer, { vm with frames })
  else
    (buffer.overwrite start (contents.slice piece.address.offset piece.length), vm)

/-- Bytes have been transferred between a buffer and a process's memory, those at the listed
places, in this order, and each after its page was made accessible in its frame. -/
inductive Transfers (vm : Vm arch) (process : ProcessId) (buffer : Bytes) (write : Bool)
    (stackPointer : VirtualAddress) : List (PageNumber × Nat) → Bytes → Vm arch → Prop
  | none : Transfers vm process buffer write stackPointer [] buffer vm
  | more {places : List (PageNumber × Nat)} {filled : Bytes} {middle used : Vm arch}
      {piece : RangePiece} {frame : FrameNumber}
      (before : Transfers vm process buffer write stackPointer places filled middle)
      (nonempty : 0 < piece.length)
      (fits : piece.address.offset + piece.length ≤ pageSize)
      (granted : (middle.userFrame process piece.address write stackPointer).Yields
        (.ok frame, used))
      (lives : used.Lives process piece.address.page (.frame frame)) :
      Transfers vm process buffer write stackPointer (places ++ piece.places)
        (used.transfer frame piece places.length write filled).1
        (used.transfer frame piece places.length write filled).2

/-- What a copy leaves that has transferred the bytes of a range up to `stop`. -/
structure Leaves (origin : Vm arch) (process : ProcessId) (base : VirtualAddress)
    (buffer : Bytes) (write : Bool) (stop : Nat) (filled : Bytes) (vm : Vm arch) : Prop where
  size : filled.size = buffer.size
  /-- The buffer is the same from there on, and all of it is if user memory is written. -/
  rest : ∀ i, write = true ∨ stop ≤ i → filled[i]? = buffer[i]?
  /-- The bytes transferred are in their pages as they are in the buffer, wherever a page that
  does not live in a file has gone since. -/
  transferred : ∀ i, i < stop → ∀ contents,
    vm.layout.contentsOf (process, (placeOf base i).1) = some contents →
      contents[(placeOf base i).2]? = filled[i]?
  /-- Those in a page that never lives in a file are there. -/
  kept : ∀ i, i < stop → vm.SwapKept process (placeOf base i).1 →
    (vm.layout.contentsOf (process, (placeOf base i).1)).isSome
  /-- Other pages hold what they held, or live in a file. -/
  others : ∀ page, (∀ i, i < stop → page ≠ (process, (placeOf base i).1)) →
    origin.layout.Upholds vm.layout page
  /-- Pages that never live in a file hold what they held, but for the bytes written to them. -/
  retained : ∀ page contents, origin.layout.contentsOf page = some contents →
    vm.SwapKept page.1 page.2 → ∃ present, vm.layout.contentsOf page = some present ∧
      ∀ offset, offset < pageSize →
        (write = true → ∀ i, i < stop → page = (process, (placeOf base i).1) →
          offset ≠ (placeOf base i).2) →
        present[offset]? = contents[offset]?

/-- How a copy of a range ends: with all bytes transferred, or where a page could not be made
accessible. -/
inductive Ends (vm : Vm arch) (process : ProcessId) (base : VirtualAddress) (buffer : Bytes)
    (write : Bool) (stackPointer : VirtualAddress) : CopyOutcome → Bytes → Vm arch → Prop
  | done {filled : Bytes} {after : Vm arch}
      (transfers : vm.Transfers process buffer write stackPointer (placesOf base buffer.size)
        filled after)
      (leaves : vm.Leaves process base buffer write buffer.size filled after) :
      Ends vm process base buffer write stackPointer ⟨buffer.size, .ok ()⟩ filled after
  | cut {stop : Nat} {filled : Bytes} {middle after : Vm arch} {cause : VmError}
      (inside : stop < buffer.size)
      (aligned : stop = 0 ∨ (⟨base.value + stop⟩ : VirtualAddress).offset = 0)
      (transfers : vm.Transfers process buffer write stackPointer (placesOf base stop)
        filled middle)
      (refused : (middle.userFrame process ⟨base.value + stop⟩ write stackPointer).Yields
        (.error cause, after))
      (user : cause ≠ .fault .kernelAddress)
      (leaves : vm.Leaves process base buffer write stop filled after) :
      Ends vm process base buffer write stackPointer ⟨stop, .error cause⟩ filled after

/-- The rules that a copy of a range breaks: those that are broken where a page is made
accessible. -/
def Breaks (vm : Vm arch) (process : ProcessId) (base : VirtualAddress) (buffer : Bytes)
    (write : Bool) (stackPointer : VirtualAddress) (violation : Violation) : Prop :=
  ∃ stop filled middle, stop < buffer.size ∧
    vm.Transfers process buffer write stackPointer (placesOf base stop) filled middle ∧
      (middle.userFrame process ⟨base.value + stop⟩ write stackPointer).outcome =
        .error violation

@[simp] theorem transfer_size (vm : Vm arch) (frame : FrameNumber) (piece : RangePiece)
    (stop : Nat) (write : Bool) (buffer : Bytes) :
    (vm.transfer frame piece stop write buffer).1.size = buffer.size := by
  unfold transfer
  cases write with
  | true => rfl
  | false => exact Bytes.size_overwrite buffer stop _

theorem transfer_rest (fits : piece.address.offset + piece.length ≤ pageSize) {i : Nat}
    (outside : write = true ∨ i < stop ∨ stop + piece.length ≤ i) :
    (vm.transfer frame piece stop write buffer).1[i]? = buffer[i]? := by
  unfold transfer
  cases write with
  | true => rfl
  | false =>
      obtain ⟨⟨⟩⟩ | outside := outside
      refine (Bytes.getElem?_overwrite buffer stop _ i).trans (if_neg ?_)
      rw [Page.size_slice _ fits]
      omega

theorem transfer_others (consistent : vm.Consistent fun _ => True)
    (backs : vm.layout.Backs page (.frame frame)) {other : UserPage} (apart : other ≠ page) :
    (vm.transfer frame piece stop write buffer).2.layout.contentsOf other =
      vm.layout.contentsOf other := by
  unfold transfer
  cases write with
  | true => exact (contentsOf_refill consistent backs _ other).trans (if_neg apart)
  | false => rfl

/-- The bytes of the piece are the same in the page and in the buffer afterwards. -/
theorem transfer_page (consistent : vm.Consistent fun _ => True)
    (backs : vm.layout.Backs page (.frame frame))
    (fits : piece.address.offset + piece.length ≤ pageSize)
    (within : stop + piece.length ≤ buffer.size) {contents : Page}
    (holds : (vm.transfer frame piece stop write buffer).2.layout.contentsOf page =
      some contents) {i : Nat} (small : i < piece.length) :
    contents[piece.address.offset + i]? =
      (vm.transfer frame piece stop write buffer).1[stop + i]? := by
  unfold transfer at holds ⊢
  cases write with
  | true =>
      have filled := (contentsOf_refill consistent backs _ page).symm.trans holds
      rw [if_pos rfl] at filled
      cases filled
      rw [Page.getElem?_overwrite _ _ _ (by omega), Nat.add_sub_cancel_left, if_pos]
      · rw [Array.getElem?_extract, if_pos (by omega)]
        rfl
      · rw [Array.size_extract]
        omega
  | false =>
      obtain ⟨entry, present, resident⟩ := backs
      have read := (Layout.contentsOf_eq present).symm.trans holds
      rw [resident] at read
      cases read
      refine Eq.trans ?_ (Bytes.getElem?_overwrite buffer stop _ (stop + i)).symm
      rw [Page.size_slice _ fits, if_pos (by omega), Nat.add_sub_cancel_left,
        Page.getElem?_slice _ _ small]
      rfl

theorem transfer_consistent (consistent : vm.Consistent fun _ => True) (frame : FrameNumber)
    (piece : RangePiece) (stop : Nat) (write : Bool) (buffer : Bytes) :
    (vm.transfer frame piece stop write buffer).2.Consistent fun _ => True := by
  unfold transfer
  cases write with
  | true => exact (consistent.refill frame _).1
  | false => exact consistent

theorem Readable.transfer (readable : vm.Readable tolerated) (frame : FrameNumber)
    (piece : RangePiece) (stop : Nat) (write : Bool) (buffer : Bytes) :
    (vm.transfer frame piece stop write buffer).2.Readable tolerated := by
  unfold Vm.transfer
  cases write with
  | true => exact readable.fewer (fun _ _ found => found) rfl
  | false => exact readable

theorem Copying.transfer {before memory : UserMemory} (consistent : vm.Consistent fun _ => True)
    (copying : Copying process base buffer before vm.layout memory stop
      (if write then stop else 0))
    (place : piece.address.value = base.value + stop)
    (fits : piece.address.offset + piece.length ≤ pageSize)
    (within : stop + piece.length ≤ buffer.size)
    (granted : (vm.userFrame process piece.address write stackPointer).Yields (.ok frame, used)) :
    ∃ memory, Copying process base (used.transfer frame piece stop write buffer).1 before
      (used.transfer frame piece stop write buffer).2.layout memory (stop + piece.length)
      (if write then stop + piece.length else 0) := by
  obtain ⟨_, consistent', middle, reach, grants, layout⟩ := (userFrame_satisfies consistent
    process piece.address write stackPointer).of_yields granted
  have sound : vm.layout.Sound fun _ => True := consistent.tenants.sound _
  cases write with
  | true =>
      refine ⟨_, copying.stored sound place fits within ⟨middle, frame, reach, grants, ?_⟩⟩
      have contents : used.frames.pool.page = middle.frame := congrArg Layout.frame layout
      refine (consistent'.refill frame _).2.trans ?_
      rw [layout, contents]
  | false =>
      rw [Layout.use_read] at layout
      subst layout
      exact ⟨_, copying.fetched sound place fits within ⟨frame, reach, grants, rfl⟩⟩

theorem userFrame_backs (consistent : vm.Consistent fun _ => True) {address : VirtualAddress}
    (granted : (vm.userFrame process address write stackPointer).Yields (.ok frame, used)) :
    used.layout.Backs (process, address.page) (.frame frame) := by
  obtain ⟨_, _, middle, _, ⟨entry, present, resident, _⟩, layout⟩ := (userFrame_satisfies
    consistent process address write stackPointer).of_yields granted
  rw [layout]
  exact ⟨entry, present, resident⟩

theorem SwapKept.contentsOf {memory : UserMemory} {number : PageNumber}
    (agrees : vm.layout.Agrees memory) (kept : vm.SwapKept process number) :
    vm.layout.contentsOf (process, number) = memory (process, number) := by
  obtain ⟨entry, present, out⟩ := swapKept_iff.mp kept
  rw [Layout.contentsOf_eq present, agrees.mirrors _ entry present out]

theorem Leaves.of_copying (size : filled.size = buffer.size)
    (rest : ∀ i, write = true ∨ stop ≤ i → filled[i]? = buffer[i]?)
    (transferred : ∀ i, i < stop → ∀ contents,
      vm.layout.contentsOf (process, (placeOf base i).1) = some contents →
        contents[(placeOf base i).2]? = filled[i]?)
    (others : ∀ page, (∀ i, i < stop → page ≠ (process, (placeOf base i).1)) →
      origin.layout.Upholds vm.layout page) {memory : UserMemory}
    (copying : Copying process base filled origin.layout.contentsOf vm.layout memory stop
      (if write then stop else 0)) :
    origin.Leaves process base buffer write stop filled vm := by
  refine ⟨size, rest, transferred, ?_, others, ?_⟩
  · intro i small kept
    obtain ⟨contents, remembered, _⟩ := copying.filled.byte small kept
    rw [kept.contentsOf copying.agrees]
    exact Option.isSome_iff_exists.mpr ⟨contents, remembered⟩
  · rintro ⟨owner, number⟩ contents held kept
    obtain ⟨_, present, remembered, same⟩ := copying.retained _ contents held
    refine ⟨present, (kept.contentsOf copying.agrees).trans remembered, ?_⟩
    intro offset inside apart
    refine same offset inside fun i small here => ?_
    cases write with
    | true => exact apart rfl i small here
    | false => exact absurd small (Nat.not_lt_zero i)

/-- A copy is underway that has transferred the bytes up to `stop`. -/
structure Underway (origin : Vm arch) (process : ProcessId) (base : VirtualAddress)
    (buffer : Bytes) (write : Bool) (stackPointer : VirtualAddress) (stop : Nat)
    (filled : Bytes) (vm : Vm arch) : Prop where
  consistent : vm.Consistent fun _ => True
  readable : vm.Readable fun _ => False
  transfers : origin.Transfers process buffer write stackPointer (placesOf base stop) filled vm
  leaves : origin.Leaves process base buffer write stop filled vm
  copying : ∃ memory, Copying process base filled origin.layout.contentsOf vm.layout memory stop
    (if write then stop else 0)

namespace Underway

theorem start (consistent : vm.Consistent fun _ => True) (readable : vm.Readable fun _ => False)
    (process : ProcessId) (base : VirtualAddress) (buffer : Bytes) (write : Bool)
    (stackPointer : VirtualAddress) :
    Underway vm process base buffer write stackPointer 0 buffer vm := by
  have agrees : vm.layout.Agrees vm.layout.contentsOf :=
    ⟨fun page entry present _ => Layout.contentsOf_eq present, fun page absent => by
      unfold Layout.contentsOf
      rw [absent]
      rfl⟩
  have copying : Copying process base buffer vm.layout.contentsOf vm.layout vm.layout.contentsOf 0
      (if write then 0 else 0) := by
    rw [ite_self]
    exact .start agrees process base buffer
  exact ⟨consistent, readable, .none, .of_copying rfl (fun _ _ => rfl)
    (fun i small => absurd small (Nat.not_lt_zero i)) (fun page _ => .of_eq rfl) copying,
    _, copying⟩

section Accesses

variable (underway : Underway origin process base buffer write stackPointer stop filled vm)
include underway

theorem leaves_of_moves (path : Relation.ReflTransGen Shift vm.layout after.layout) :
    origin.Leaves process base buffer write stop filled after := by
  obtain ⟨memory, copying⟩ := underway.copying
  have upholds := Layout.upholds_of_moves path
  refine .of_copying underway.leaves.size underway.leaves.rest ?_ ?_ (copying.moves path)
  · intro i small contents holds
    exact underway.leaves.transferred i small contents (upholds _ contents holds)
  · intro page apart
    exact (underway.leaves.others page apart).trans (upholds page)

theorem next (place : piece.address.value = base.value + stop)
    (fits : piece.address.offset + piece.length ≤ pageSize) (opens : piece.Opens base)
    (within : stop + piece.length ≤ buffer.size)
    (granted : (vm.userFrame process piece.address write stackPointer).Yields (.ok frame, used)) :
    Underway origin process base buffer write stackPointer (stop + piece.length)
      (used.transfer frame piece stop write filled).1
      (used.transfer frame piece stop write filled).2 := by
  obtain ⟨_, consistent, middle, reach, _, layout⟩ := (userFrame_satisfies
    underway.consistent process piece.address write stackPointer).of_yields granted
  have readable := (underway.readable.userFrame underway.consistent process piece.address write
    stackPointer).of_yields granted
  have backs := userFrame_backs underway.consistent granted
  obtain ⟨memory, copying⟩ := underway.copying
  obtain ⟨size, rest, transferred, _, others, _⟩ := underway.leaves
  obtain ⟨memory', copying'⟩ := copying.transfer underway.consistent place fits
    (size.symm ▸ within) granted
  -- the access changes nothing that another page holds, nor does the transfer
  have upholds : ∀ page, page ≠ (process, piece.address.page) → vm.layout.Upholds
      (used.transfer frame piece stop write filled).2.layout page := by
    intro page apart contents holds
    rw [transfer_others consistent backs apart, layout] at holds
    exact reach.upholds apart contents holds
  have own : placeOf base stop = (piece.address.page, piece.address.offset) :=
    RangePiece.placeOf_add place fits opens.1
  refine ⟨transfer_consistent consistent frame piece stop write filled,
    readable.transfer frame piece stop write filled, ?_,
    .of_copying ((transfer_size ..).trans size) ?_ ?_ ?_ copying', memory', copying'⟩
  · have counted : (placesOf base stop).length = stop := by simp [placesOf]
    have more := underway.transfers.more opens.1 fits granted (lives_iff.mpr backs)
    rwa [counted, ← RangePiece.placesOf_append place fits] at more
  · intro i outside
    refine (transfer_rest fits (outside.imp_right .inr)).trans (rest i ?_)
    exact outside.imp_right (Nat.le_trans (Nat.le_add_right stop piece.length))
  · intro i small contents holds
    by_cases before : i < stop
    · have apart := RangePiece.placeOf_ne_of_lt place opens before
      rw [transfer_rest fits (.inr (.inl before))]
      exact transferred i before contents (upholds _ (fun same => apart (Prod.ext_iff.mp same).2)
        contents holds)
    · obtain ⟨j, rfl⟩ := Nat.exists_eq_add_of_le (Nat.not_lt.mp before)
      have inside : j < piece.length := by omega
      rw [RangePiece.placeOf_add place fits inside] at holds ⊢
      exact transfer_page consistent backs fits (size.symm ▸ within) holds inside
  · intro page apart
    refine (others page fun i small => apart i (by omega)).trans (upholds page ?_)
    have first := apart stop (Nat.lt_add_of_pos_right opens.1)
    rwa [own] at first

/-- The page of the next piece is made accessible, or the copy ends there. -/
theorem access (place : piece.address.value = base.value + stop) (opens : piece.Opens base)
    (within : stop + piece.length ≤ buffer.size)
    (user : base.value + buffer.size ≤ arch.userLimit) :
    (vm.userFrame process piece.address write stackPointer).Satisfies
      (origin.Breaks process base buffer write stackPointer) fun (result, after) =>
        (vm.userFrame process piece.address write stackPointer).Yields (result, after) ∧
          ∀ cause, result = .error cause → origin.Ends process base buffer write stackPointer
            ⟨stop, .error cause⟩ filled after := by
  have nonempty := opens.1
  have inside : stop < buffer.size := by omega
  have address : piece.address = ⟨base.value + stop⟩ := Address.ext place
  have breaks : ∀ violation, (vm.userFrame process piece.address write stackPointer).outcome =
      .error violation → origin.Breaks process base buffer write stackPointer violation := by
    intro violation broken
    rw [address] at broken
    exact ⟨stop, filled, vm, inside, underway.transfers, broken⟩
  refine .mono (.and (.of_errors breaks) (.and (userFrame_satisfies underway.consistent process
    piece.address write stackPointer) (userFrame_refuses underway.consistent process
    piece.address write stackPointer))) ?_
  rintro ⟨result, after⟩ ⟨yields, ⟨_, _, outcome⟩, refuses⟩
  refine ⟨yields, ?_⟩
  rintro cause rfl
  rw [address] at yields
  refine .cut inside (opens.aligned place) underway.transfers yields ?_
    (underway.leaves_of_moves outcome)
  -- in user space no access is refused for its address
  rintro rfl
  obtain ⟨_, ⟨⟩⟩ | ⟨_, reason, ⟨⟩, classified | ⟨⟨⟩⟩⟩ := refuses _ rfl
  obtain ⟨_, kernel⟩ | ⟨⟨⟩, _⟩ | ⟨⟨⟩, _⟩ | ⟨⟨⟩⟩ | ⟨⟨⟩⟩ := classify_error classified
  have above : ¬piece.address.value < arch.userLimit := of_decide_eq_false kernel
  omega

theorem reached
    (granted : (vm.userFrame process piece.address write stackPointer).Yields (.ok frame, used)) :
    used.frames.pool.reach frame = .ok () := by
  have readable := (underway.readable.userFrame underway.consistent process piece.address write
    stackPointer).of_yields granted
  cases reached : used.frames.pool.reach frame with
  | ok _ => rfl
  | error violation =>
      exact (readable _ frame (userFrame_backs underway.consistent granted) violation reached).elim

end Accesses

theorem storePiece
    (underway : Underway origin process base buffer true stackPointer stop buffer vm)
    (place : piece.address.value = base.value + stop)
    (fits : piece.address.offset + piece.length ≤ pageSize) (opens : piece.Opens base)
    (within : stop + piece.length ≤ buffer.size)
    (user : base.value + buffer.size ≤ arch.userLimit) :
    (vm.storePiece process piece (buffer.extract stop (stop + piece.length))
      stackPointer).Satisfies (origin.Breaks process base buffer true stackPointer)
        fun (result, after) => match result with
        | .error cause => origin.Ends process base buffer true stackPointer
            ⟨stop, .error cause⟩ buffer after
        | .ok () => Underway origin process base buffer true stackPointer
            (stop + piece.length) buffer after := by
  unfold Vm.storePiece
  refine .bind (underway.access place opens within user) ?_
  rintro ⟨result, used⟩ ⟨yields, refused⟩
  cases result with
  | error cause => exact .pure (refused cause rfl)
  | ok frame =>
      refine .bind (.lift (.of_eq (FrameTable.write_of_reached (underway.reached yields) ?_)
        rfl)) ?_
      · rw [Array.size_extract]
        omega
      · rintro _ rfl
        exact .pure (underway.next place fits opens within yields)

theorem fetchPiece
    (underway : Underway origin process base buffer false stackPointer stop filled vm)
    (place : piece.address.value = base.value + stop)
    (fits : piece.address.offset + piece.length ≤ pageSize) (opens : piece.Opens base)
    (within : stop + piece.length ≤ buffer.size)
    (user : base.value + buffer.size ≤ arch.userLimit) :
    (vm.fetchPiece process piece stackPointer).Satisfies
      (origin.Breaks process base buffer false stackPointer)
        fun (result, after) => match result with
        | .error cause => origin.Ends process base buffer false stackPointer
            ⟨stop, .error cause⟩ filled after
        | .ok bytes => Underway origin process base buffer false stackPointer
            (stop + piece.length) (filled.overwrite stop bytes) after := by
  unfold Vm.fetchPiece
  refine .bind (underway.access place opens within user) ?_
  rintro ⟨result, used⟩ ⟨yields, refused⟩
  cases result with
  | error cause => exact .pure (refused cause rfl)
  | ok frame =>
      refine .bind (.lift (.of_eq (FrameTable.read_of_reached (underway.reached yields) fits) rfl)) ?_
      rintro _ rfl
      exact .pure (underway.next place fits opens within yields)

theorem writePieces
    (underway : Underway origin process base buffer true stackPointer stop buffer vm)
    {pieces : List RangePiece} (tiles : RangePiece.Tiles base buffer.size stop pieces)
    (opens : ∀ piece ∈ pieces, piece.Opens base)
    (user : base.value + buffer.size ≤ arch.userLimit) :
    (writePieces process base buffer stackPointer vm pieces).Satisfies
      (origin.Breaks process base buffer true stackPointer) fun (outcome, after) =>
        origin.Ends process base buffer true stackPointer outcome buffer after := by
  induction tiles generalizing vm with
  | done => exact .pure (.done underway.transfers underway.leaves)
  | @next stop piece rest place fits tiles ih =>
      have first : piece.address.value - base.value = stop := by omega
      unfold Vm.writePieces
      simp only [first]
      refine .bind (underway.storePiece place fits (opens piece List.mem_cons_self)
        tiles.start_le user) ?_
      rintro ⟨result, after⟩ outcome
      cases result with
      | error cause => exact .pure outcome
      | ok _ => exact ih outcome fun other member => opens other (List.mem_cons_of_mem _ member)

theorem readPieces
    (underway : Underway origin process base buffer false stackPointer stop filled vm)
    {pieces : List RangePiece} (tiles : RangePiece.Tiles base buffer.size stop pieces)
    (opens : ∀ piece ∈ pieces, piece.Opens base)
    (user : base.value + buffer.size ≤ arch.userLimit) :
    (readPieces process base filled stackPointer vm pieces).Satisfies
      (origin.Breaks process base buffer false stackPointer) fun (outcome, last, after) =>
        origin.Ends process base buffer false stackPointer outcome last after := by
  induction tiles generalizing vm filled with
  | done =>
      refine .pure ?_
      rw [underway.leaves.size]
      exact .done underway.transfers underway.leaves
  | @next stop piece rest place fits tiles ih =>
      have first : piece.address.value - base.value = stop := by omega
      unfold Vm.readPieces
      simp only [first]
      refine .bind (underway.fetchPiece place fits (opens piece List.mem_cons_self)
        tiles.start_le user) ?_
      rintro ⟨result, after⟩ outcome
      cases result with
      | error cause => exact .pure outcome
      | ok bytes => exact ih outcome fun other member => opens other (List.mem_cons_of_mem _ member)

end Underway

section Copies

variable (process : ProcessId) (address : VirtualAddress) (buffer : Bytes)
  (stackPointer : VirtualAddress)

theorem copyToUser_of_exceeds (vm : Vm arch) (exceeds : Exceeds arch address buffer.size) :
    vm.copyToUser process address buffer stackPointer =
      return (⟨0, .error (.fault .kernelAddress)⟩, vm) := by
  unfold copyToUser
  exact if_neg fun inside => not_exceeds_iff.mpr (of_decide_eq_true inside) exceeds

theorem copyFromUser_of_exceeds (vm : Vm arch) (exceeds : Exceeds arch address buffer.size) :
    vm.copyFromUser process address buffer stackPointer =
      return (⟨0, .error (.fault .kernelAddress)⟩, buffer, vm) := by
  unfold copyFromUser
  exact if_neg fun inside => not_exceeds_iff.mpr (of_decide_eq_true inside) exceeds

variable (inside : ¬Exceeds arch address buffer.size)
include inside

theorem add_of_not_exceeds {i : Nat} (small : i < buffer.size) :
    Address.add arch address i = .ok ⟨address.value + i⟩ := by
  have below : address.value + i < arch.userLimit :=
    Nat.lt_of_lt_of_le (Nat.add_lt_add_left small _) (not_exceeds_iff.mp inside)
  have accepted := Architecture.accepts_virtual_of_lt_userLimit arch below
  unfold Address.add Word.add Address.new
  rw [if_pos accepted.lt_wordLimit, Checked.ok_bind, if_pos accepted]

theorem Reachable.copyToUser_ends (reachable : Reachable vm) :
    (vm.copyToUser process address buffer stackPointer).Satisfies
      (vm.Breaks process address buffer true stackPointer) fun (outcome, after) =>
        vm.Ends process address buffer true stackPointer outcome buffer after := by
  have user := not_exceeds_iff.mp inside
  unfold copyToUser inUserSpace
  rw [if_pos (decide_eq_true user)]
  exact (Underway.start reachable.consistent reachable.readable process address buffer true
      stackPointer).writePieces (RangePiece.tiles_ofRange address buffer.size)
      (fun piece member => RangePiece.opens_of_mem member) user

theorem Reachable.copyFromUser_ends (reachable : Reachable vm) :
    (vm.copyFromUser process address buffer stackPointer).Satisfies
      (vm.Breaks process address buffer false stackPointer) fun (outcome, filled, after) =>
        vm.Ends process address buffer false stackPointer outcome filled after := by
  have user := not_exceeds_iff.mp inside
  unfold copyFromUser inUserSpace
  rw [if_pos (decide_eq_true user)]
  exact (Underway.start reachable.consistent reachable.readable process address buffer false
      stackPointer).readPieces (RangePiece.tiles_ofRange address buffer.size)
      (fun piece member => RangePiece.opens_of_mem member) user

end Copies

theorem Ends.ne_kernelAddress {outcome : CopyOutcome}
    (ends : vm.Ends process base buffer write stackPointer outcome filled after) :
    outcome.result ≠ .error (.fault .kernelAddress) := by
  cases ends with
  | done => simp
  | cut _ _ _ _ user => simpa using user

/-- A copy is refused for its address exactly if its range overflows or leaves user space, then
with nothing changed. Otherwise every byte of the range has an address, and the copy transfers
each of them once, in order, at its place, either all of them or those up to the first byte or
the start of a page whose page cannot be made accessible, and then it ends as this access does.
What has been transferred stays transferred, wherever pages move, and no other byte of the
buffer or of user memory is changed. -/
theorem Reachable.copies (reachable : Reachable vm) (process : ProcessId)
    (address : VirtualAddress) (buffer : Bytes) (stackPointer : VirtualAddress) :
    (∀ copied after, (vm.copyToUser process address buffer stackPointer).Yields
      (⟨copied, .error (.fault .kernelAddress)⟩, after) ↔
        Exceeds arch address buffer.size ∧ copied = 0 ∧ after = vm) ∧
    (∀ copied filled after, (vm.copyFromUser process address buffer stackPointer).Yields
      (⟨copied, .error (.fault .kernelAddress)⟩, filled, after) ↔
        Exceeds arch address buffer.size ∧ copied = 0 ∧ filled = buffer ∧ after = vm) ∧
    (¬Exceeds arch address buffer.size →
      (∀ i, i < buffer.size → Address.add arch address i = .ok ⟨address.value + i⟩) ∧
      ((vm.copyToUser process address buffer stackPointer).Satisfies
        (vm.Breaks process address buffer true stackPointer) fun (outcome, after) =>
          vm.Ends process address buffer true stackPointer outcome buffer after) ∧
      (vm.copyFromUser process address buffer stackPointer).Satisfies
        (vm.Breaks process address buffer false stackPointer) fun (outcome, filled, after) =>
          vm.Ends process address buffer false stackPointer outcome filled after) := by
  refine ⟨fun copied after => ⟨fun yields => ?_, ?_⟩,
    fun copied filled after => ⟨fun yields => ?_, ?_⟩, fun inside => ⟨?_, ?_, ?_⟩⟩
  · by_cases exceeds : Exceeds arch address buffer.size
    · rw [copyToUser_of_exceeds process address buffer stackPointer vm exceeds] at yields
      cases yields
      exact ⟨exceeds, rfl, rfl⟩
    · have ends := (reachable.copyToUser_ends process address buffer stackPointer
        exceeds).of_yields yields
      exact absurd rfl ends.ne_kernelAddress
  · rintro ⟨exceeds, rfl, rfl⟩
    rw [copyToUser_of_exceeds process address buffer stackPointer _ exceeds]
    rfl
  · by_cases exceeds : Exceeds arch address buffer.size
    · rw [copyFromUser_of_exceeds process address buffer stackPointer vm exceeds] at yields
      cases yields
      exact ⟨exceeds, rfl, rfl, rfl⟩
    · have ends := (reachable.copyFromUser_ends process address buffer stackPointer
        exceeds).of_yields yields
      exact absurd rfl ends.ne_kernelAddress
  · rintro ⟨exceeds, rfl, rfl, rfl⟩
    rw [copyFromUser_of_exceeds process address _ stackPointer _ exceeds]
    rfl
  · exact fun i small => add_of_not_exceeds address buffer inside small
  · exact reachable.copyToUser_ends process address buffer stackPointer inside
  · exact reachable.copyFromUser_ends process address buffer stackPointer inside

/-- A copy of two bytes to two pages, with one frame for both: when the second byte has been
transferred, the first one is in swap. -/
theorem copies_two_pages : ∃ (vm after : Vm .scaleModel) (contents : Page), Reachable vm ∧
    vm.frames.total = 1 ∧
    (vm.copyToUser ⟨1⟩ ⟨0x1FFF⟩ #[7, 8] ⟨0⟩).Yields (⟨2, .ok ()⟩, after) ∧
    vm.Transfers ⟨1⟩ #[7, 8] true ⟨0⟩ [(⟨1⟩, 0xFFF), (⟨2⟩, 0)] #[7, 8] after ∧
    after.layout.Backs (⟨1⟩, ⟨1⟩) (.swap ⟨0⟩) ∧
    after.layout.contentsOf (⟨1⟩, ⟨1⟩) = some contents ∧ contents[0xFFF]? = some 7 := by
  have passes : (oneFrame.run? [.createProcess ⟨1⟩, .installPage ⟨1⟩ ⟨0x1000⟩ true,
      .installPage ⟨1⟩ ⟨0x2000⟩ true]).any (fun vm => vm.frames.total == 1 &&
        (vm.copyToUser ⟨1⟩ ⟨0x1FFF⟩ #[7, 8] ⟨0⟩).passes fun (outcome, after) =>
          outcome.result.isOk &&
          (after.layout.entry (⟨1⟩, ⟨1⟩)).any fun entry => entry.backing == .swap ⟨0⟩) = true := by
    decide +kernel
  simp only [Option.any_eq_true _ _, Run.passes_iff, Bool.and_eq_true, Prod.exists,
    beq_iff_eq] at passes
  obtain ⟨vm, ran, single, outcome, after, copied, done, entry, present, source⟩ := passes
  have reachable := (Reachable.boot oneFrame_booted).run ran
  have ends := ((reachable.copies ⟨1⟩ ⟨0x1FFF⟩ #[7, 8] ⟨0⟩).2.2
    (by unfold Exceeds; decide)).2.1.of_yields copied
  cases ends with
  | cut => cases done
  | done transfers leaves =>
      have held : after.layout.contentsOf (⟨1⟩, ⟨1⟩) = some (after.layout.slot ⟨0⟩) := by
        rw [Layout.contentsOf_eq present, source]
        rfl
      exact ⟨vm, after, _, reachable, single, copied, transfers, ⟨entry, present, source⟩, held,
        leaves.transferred 0 (by decide) _ held⟩

end Vm
end DemandPaging
