import DemandPaging.Architecture
import DemandPaging.Number

/-!
Addresses, the pages and frames they lie in, and their text. An address does not
record whether its architecture accepts it: `Address.Valid` says so, and the
operations that check it are in `DemandPaging.Address.Arithmetic`.
-/

namespace DemandPaging

/-- An address of one kind. -/
@[ext] structure Address (kind : AddressKind) where
  value : Nat
deriving DecidableEq, Repr

abbrev VirtualAddress := Address .virtual

abbrev PhysicalAddress := Address .physical

def hexText (value : Nat) : String :=
  "0x" ++ String.ofList (Nat.toDigits 16 value)

namespace Address

variable {kind : AddressKind}

def Valid (arch : Architecture) (address : Address kind) : Prop :=
  arch.Accepts kind address.value

/-- Distance from the start of the page or frame the address lies in. -/
def offset (address : Address kind) : Nat :=
  address.value % pageSize

def page (address : VirtualAddress) : PageNumber :=
  ⟨address.value / pageSize⟩

def frame (address : PhysicalAddress) : FrameNumber :=
  ⟨address.value / pageSize⟩

def isUser (arch : Architecture) (address : VirtualAddress) : Bool :=
  address.value < arch.userLimit

/-- Moves the address down, stopping at zero. The result is not validated. -/
def saturatingSub (address : Address kind) (distance : Nat) : Address kind :=
  ⟨address.value - distance⟩

def text (address : Address kind) : String :=
  hexText address.value

def debugText (address : Address kind) : String :=
  match kind with
  | .physical => s!"PhysicalAddress({address.text})"
  | .virtual => s!"VirtualAddress({address.text})"

end Address
end DemandPaging
