import Mathlib.Algebra.Group.Nat.Defs
import Mathlib.Order.Bounds.Basic
import DemandPaging.Address.Arithmetic
import DemandPaging.Proofs.Outcome

/-!
Addresses that stay valid. Addition, subtraction and the start of a page or a frame validate their
results. Moving an address down does not: on `x86_64` that leaves the accepted addresses where the
move starts in the upper range of virtual addresses and ends in the gap below it.
-/

namespace DemandPaging

namespace Architecture

variable {arch : Architecture} {kind : AddressKind} {a b alignment : Nat}

/-- Above the lower range of virtual addresses that `x86_64` accepts and below the upper one. -/
def Gap (arch : Architecture) (kind : AddressKind) (a : Nat) : Prop :=
  arch = .x86_64 ∧ kind = .virtual ∧ 0x800000000000 ≤ a ∧ a < 0xFFFF800000000000

/-- In the upper range of virtual addresses that `x86_64` accepts. -/
def Upper (arch : Architecture) (kind : AddressKind) (a : Nat) : Prop :=
  arch = .x86_64 ∧ kind = .virtual ∧ 0xFFFF800000000000 ≤ a

/-- A word is canonical if its low 48 bits, sign-extended, are the word itself. -/
theorem accepts_virtual_iff_signExtend (word : BitVec 64) :
    x86_64.Accepts .virtual word.toNat ↔ (word.setWidth 48).signExtend 64 = word := by
  have bound := word.isLt
  rw [← BitVec.toNat_inj, BitVec.toNat_signExtend, BitVec.msb_eq_decide]
  simp only [Accepts, wordLimit, BitVec.toNat_setWidth, decide_eq_true_eq, Nat.reducePow,
    Nat.reduceSub]
  split <;> omega

theorem Accepts.of_le (accepted : arch.Accepts kind a) (below : b ≤ a) :
    arch.Accepts kind b ↔ ¬arch.Gap kind b := by
  cases arch <;> cases kind <;> simp [Accepts, Gap] at * <;> omega

theorem le_sub_mod_iff (multiple : alignment ∣ b) : b ≤ a - a % alignment ↔ b ≤ a := by
  obtain ⟨count, rfl⟩ := multiple
  constructor
  · intro above
    omega
  · intro above
    rcases Nat.eq_zero_or_pos alignment with rfl | positive
    · simp
    · rw [← Nat.mul_div_self_eq_mod_sub_self]
      exact Nat.mul_le_mul_left _ ((Nat.le_div_iff_mul_le positive).mpr (by rwa [Nat.mul_comm]))

/-- Rounding an accepted address down ends in the gap if it clears bit 47 of an upper one. -/
theorem Accepts.gap_iff (accepted : arch.Accepts kind a) {bits : Nat} (small : bits < 64) :
    arch.Gap kind (a - a % 2 ^ bits) ↔ arch.Upper kind a ∧ 47 < bits := by
  have word := accepted.lt_wordLimit
  have down : a - a % 2 ^ bits ≤ a := Nat.sub_le _ _
  constructor
  · rintro ⟨rfl, rfl, above, below⟩
    have upper : 0xFFFF800000000000 ≤ a := by
      rcases accepted with low | ⟨high, _⟩ <;> omega
    refine ⟨⟨rfl, rfl, upper⟩, Nat.lt_of_not_le fun few => ?_⟩
    have multiple : 2 ^ bits ∣ 0xFFFF800000000000 :=
      Nat.dvd_trans (Nat.pow_dvd_pow 2 few) ⟨0x1FFFF, rfl⟩
    have := (le_sub_mod_iff multiple).mpr upper
    omega
  · rintro ⟨⟨rfl, rfl, upper⟩, many⟩
    have half : 2 ^ bits ∣ 0x8000000000000000 := Nat.pow_dvd_pow 2 (Nat.le_of_lt_succ small)
    have above : 0x8000000000000000 ≤ a - a % 2 ^ bits := (le_sub_mod_iff half).mpr (by omega)
    -- the upper range holds no multiple of 2 ^ 48
    have cleared : 0x1000000000000 ∣ a - a % 2 ^ bits :=
      Nat.dvd_trans (Nat.pow_dvd_pow 2 many) (Nat.dvd_sub_mod a)
    unfold wordLimit at word
    exact ⟨rfl, rfl, by omega, by omega⟩

end Architecture

namespace Word

variable (a b : Nat)

theorem add_satisfies : (add a b).Satisfies
    (fun violation => violation = .overflow .add ∧ wordLimit ≤ a + b) fun sum => sum = a + b := by
  unfold add
  split
  · exact Eq.refl _
  · rename_i large
    exact ⟨rfl, Nat.le_of_not_lt large⟩

theorem sub_satisfies : (sub a b).Satisfies
    (fun violation => violation = .overflow .subtract ∧ a < b)
    fun difference => difference = a - b := by
  unfold sub
  split
  · exact Eq.refl _
  · rename_i large
    exact ⟨rfl, Nat.lt_of_not_le large⟩

theorem mul_satisfies : (mul a b).Satisfies
    (fun violation => violation = .overflow .multiply ∧ wordLimit ≤ a * b)
    fun product => product = a * b := by
  unfold mul
  split
  · exact Eq.refl _
  · rename_i large
    exact ⟨rfl, Nat.le_of_not_lt large⟩

end Word

namespace Address

variable {arch : Architecture} {kind : AddressKind} {address : Address kind} {value : Nat}

def start (arch : Architecture) : {kind : AddressKind} → Address kind → Checked (Address kind)
  | .virtual, address => address.page.pageStart arch
  | .physical, address => address.frame.frameStart arch

theorem bind_new_satisfies {tolerated : Violation → Prop} {result : Checked Nat}
    (h : result.Satisfies tolerated fun found => found = value) :
    (result >>= new arch).Satisfies
      (fun violation => tolerated violation ∨
        violation = .invalidAddress kind ∧ ¬arch.Accepts kind value)
      fun found => found.Valid arch ∧ found = (⟨value⟩ : Address kind) := by
  refine .bind (h.weaken fun _ => .inl) ?_
  rintro _ rfl
  unfold new
  split
  · rename_i accepted
    exact ⟨accepted, rfl⟩
  · rename_i refused
    exact .inr ⟨rfl, refused⟩

theorem add_satisfies (address : Address kind) (distance : Nat) :
    (address.add arch distance).Satisfies
      (fun violation => (violation = .overflow .add ∧ wordLimit ≤ address.value + distance) ∨
        violation = .invalidAddress kind ∧ ¬arch.Accepts kind (address.value + distance))
      fun sum => sum.Valid arch ∧ sum = ⟨address.value + distance⟩ :=
  bind_new_satisfies (Word.add_satisfies ..)

theorem sub_satisfies (address : Address kind) (distance : Nat) :
    (address.sub arch distance).Satisfies
      (fun violation => (violation = .overflow .subtract ∧ address.value < distance) ∨
        violation = .invalidAddress kind ∧ ¬arch.Accepts kind (address.value - distance))
      fun difference => difference.Valid arch ∧ difference = ⟨address.value - distance⟩ :=
  bind_new_satisfies (Word.sub_satisfies ..)

theorem frameStart_satisfies (frame : FrameNumber) :
    (frame.frameStart arch).Satisfies
      (fun violation => (violation = .overflow .multiply ∧ wordLimit ≤ frame.value * pageSize) ∨
        violation = .invalidAddress .physical ∧ ¬arch.Accepts .physical (frame.value * pageSize))
      fun start => start.Valid arch ∧ start = ⟨frame.value * pageSize⟩ :=
  bind_new_satisfies (Word.mul_satisfies ..)

/-- Rounding clears the bits below an alignment, so that an upper address leaves the upper range
where bit 47 is one of them. -/
theorem Valid.alignDown_satisfies (valid : address.Valid arch) {alignment : Nat}
    (word : alignment < wordLimit) :
    (address.alignDown alignment).Satisfies
      (fun violation => violation = .alignmentNotPowerOfTwo ∧ ¬alignment.isPowerOfTwo)
      fun aligned => alignment.isPowerOfTwo ∧
        IsGreatest {multiple | alignment ∣ multiple ∧ multiple ≤ address.value} aligned.value ∧
        (aligned.Valid arch ↔
          ¬(arch.Upper kind address.value ∧ 0x800000000000 < alignment)) := by
  have required : (require alignment.isPowerOfTwo .alignmentNotPowerOfTwo).Satisfies
      (fun violation => violation = .alignmentNotPowerOfTwo ∧ ¬alignment.isPowerOfTwo)
      fun _ => alignment.isPowerOfTwo := by
    unfold require
    split
    · assumption
    · rename_i other
      exact ⟨rfl, other⟩
  refine .bind required fun _ power => .pure ⟨power, ?_, ?_⟩
  · refine ⟨⟨Nat.dvd_sub_mod _, Nat.sub_le _ _⟩, ?_⟩
    rintro multiple ⟨divides, below⟩
    exact (Architecture.le_sub_mod_iff divides).mpr below
  · obtain ⟨bits, rfl⟩ := power
    have few : bits < 64 := (Nat.pow_lt_pow_iff_right Nat.one_lt_two).mp word
    have many : 0x800000000000 < 2 ^ bits ↔ 47 < bits :=
      Nat.pow_lt_pow_iff_right (n := 47) Nat.one_lt_two
    rw [many, ← Architecture.Accepts.gap_iff valid few]
    exact Architecture.Accepts.of_le valid (Nat.sub_le _ _)

theorem Valid.start_eq (valid : address.Valid arch) :
    address.start arch = .ok ⟨address.value - address.value % pageSize⟩ ∧
      arch.Accepts kind (address.value - address.value % pageSize) := by
  have accepted : arch.Accepts kind (address.value - address.value % pageSize) := by
    rw [Architecture.Accepts.of_le valid (Nat.sub_le _ _), show pageSize = 2 ^ 12 from rfl,
      Architecture.Accepts.gap_iff valid (by decide)]
    simp
  have down : address.value / pageSize * pageSize = address.value - address.value % pageSize := by
    unfold pageSize
    omega
  refine ⟨?_, accepted⟩
  cases kind <;>
    simp only [start, Number.pageStart, Number.frameStart, page, frame, Word.mul, down,
      if_pos accepted.lt_wordLimit, Checked.ok_bind, new, if_pos accepted]

/-- Whatever is done with a valid address: a sum, a difference and the start of a page or a frame
are valid addresses where there is one, and there is always a start, from which the offset leads
back. An address moved down is the one that is asked for, but it is valid outside the gap only:
rounding ends there for the upper addresses and the alignments above 2 ^ 47. -/
theorem Valid.operations (valid : address.Valid arch) :
    (∀ distance, (address.add arch distance).Satisfies
      (fun violation => (violation = .overflow .add ∧ wordLimit ≤ address.value + distance) ∨
        violation = .invalidAddress kind ∧ ¬arch.Accepts kind (address.value + distance))
      fun sum => sum.Valid arch ∧ sum = ⟨address.value + distance⟩) ∧
    (∀ distance, (address.sub arch distance).Satisfies
      (fun violation => (violation = .overflow .subtract ∧ address.value < distance) ∨
        violation = .invalidAddress kind ∧ ¬arch.Accepts kind (address.value - distance))
      fun difference => difference.Valid arch ∧ difference = ⟨address.value - distance⟩) ∧
    (∀ distance, (address.saturatingSub distance).value = address.value - distance ∧
      ((address.saturatingSub distance).Valid arch ↔
        ¬arch.Gap kind (address.value - distance))) ∧
    (∀ alignment < wordLimit, (address.alignDown alignment).Satisfies
      (fun violation => violation = .alignmentNotPowerOfTwo ∧ ¬alignment.isPowerOfTwo)
      fun aligned => alignment.isPowerOfTwo ∧
        IsGreatest {multiple | alignment ∣ multiple ∧ multiple ≤ address.value} aligned.value ∧
        (aligned.Valid arch ↔
          ¬(arch.Upper kind address.value ∧ 0x800000000000 < alignment))) ∧
    ∃ start, address.start arch = .ok start ∧ start.Valid arch ∧ pageSize ∣ start.value ∧
      start.value + address.offset = address.value ∧
      start.add arch address.offset = .ok address := by
  refine ⟨address.add_satisfies, address.sub_satisfies, fun distance => ⟨rfl, ?_⟩,
    fun _ word => valid.alignDown_satisfies word, ?_⟩
  · exact Architecture.Accepts.of_le valid (Nat.sub_le _ _)
  · obtain ⟨found, accepted⟩ := valid.start_eq
    have back : address.value - address.value % pageSize + address.offset = address.value :=
      Nat.sub_add_cancel (Nat.mod_le _ _)
    refine ⟨_, found, accepted, Nat.dvd_sub_mod _, back, ?_⟩
    unfold add Word.add
    rw [back, if_pos valid.lt_wordLimit]
    exact if_pos valid

/-- The lowest upper address, less one and rounded down to a multiple of 2 ^ 48. Less one by a
checked subtraction it is refused. -/
theorem below_upper_range : ∃ address aligned : VirtualAddress,
    address.Valid .x86_64 ∧ ¬(address.saturatingSub 1).Valid .x86_64 ∧
      address.alignDown 0x1000000000000 = .ok aligned ∧ ¬aligned.Valid .x86_64 ∧
      address.sub .x86_64 1 = .error (.invalidAddress .virtual) :=
  ⟨⟨0xFFFF800000000000⟩, ⟨0xFFFF000000000000⟩, by unfold Valid; decide⟩

/-- An address in the last page of the upper range. -/
theorem operations_last_page : (⟨0xFFFFFFFFFFFFF123⟩ : VirtualAddress).Valid .x86_64 ∧
    ∃ start : VirtualAddress, start.Valid .x86_64 ∧
      start.add .x86_64 0x123 = .ok ⟨0xFFFFFFFFFFFFF123⟩ := by
  have valid : (⟨0xFFFFFFFFFFFFF123⟩ : VirtualAddress).Valid .x86_64 := by unfold Valid; decide
  obtain ⟨-, -, -, -, start, -, accepted, -, -, back⟩ := valid.operations
  exact ⟨valid, start, accepted, back⟩

end Address
end DemandPaging
