/-!
The two paging architectures the pager runs on. Both have pages of 4096 bytes
and 64-bit machine words; they differ in the addresses they accept and in where
user space ends.
-/

namespace DemandPaging

/-- Bytes in a page and in a frame. -/
abbrev pageSize : Nat := 4096

/-- A machine word holds the numbers below this one. -/
abbrev wordLimit : Nat := 0x10000000000000000

/-- How many pages the given number of bytes reaches into, from the start of a page. -/
def pagesFor (length : Nat) : Nat :=
  (length + (pageSize - 1)) / pageSize

/-- `scaleModel` is a 32-bit model of paging run on a host, `x86_64` the
processor with four-level tables. -/
inductive Architecture where
  | scaleModel
  | x86_64
deriving DecidableEq, Repr

/-- Physical addresses name bytes of memory, virtual ones what a process sees. -/
inductive AddressKind where
  | physical
  | virtual
deriving DecidableEq, Repr

namespace Architecture

def userLimit : Architecture → Nat
  | scaleModel => 0xC0000000
  | x86_64 => 0x800000000000

/-- The addresses of a kind that the architecture accepts. On `x86_64` a virtual
address is canonical: bits 47 to 63 are equal. -/
def Accepts : Architecture → AddressKind → Nat → Prop
  | scaleModel, _, a => a < 0x100000000
  | x86_64, .physical, a => a < 0x1000000000000
  | x86_64, .virtual, a => a < 0x800000000000 ∨ 0xFFFF800000000000 ≤ a ∧ a < wordLimit

instance (arch : Architecture) (kind : AddressKind) (a : Nat) :
    Decidable (arch.Accepts kind a) := by
  cases arch <;> cases kind <;> unfold Accepts <;> infer_instance

theorem Accepts.lt_wordLimit {arch : Architecture} {kind : AddressKind} {a : Nat}
    (h : arch.Accepts kind a) : a < wordLimit := by
  cases arch <;> cases kind <;> simp only [Accepts, wordLimit] at * <;> omega

/-- Every address of user space is accepted as a virtual one. -/
theorem accepts_virtual_of_lt_userLimit (arch : Architecture) {a : Nat}
    (h : a < arch.userLimit) : arch.Accepts .virtual a := by
  cases arch <;> simp only [Accepts, userLimit, wordLimit] at * <;> omega

end Architecture
end DemandPaging
