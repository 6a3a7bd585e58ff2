import DemandPaging.Error
import DemandPaging.Teardown

/-!
What the pager logs. An `Event` says what happened in the words of the pager; its
level and text are functions of it, so the log is part of an operation's result
and can be compared without comparing text.
-/

namespace DemandPaging

/-- How much an event matters, from errors down to the finest trace. -/
inductive Level where
  | error
  | warn
  | info
  | debug
  | trace
deriving DecidableEq, Repr

/-- Where the contents of a faulting page come from. -/
inductive PageSource where
  /-- A new page of the stack. -/
  | zero
  | swap (slot : SwapSlot)
  | file (mapping : MappingId)
deriving DecidableEq, Repr

inductive Event where
  | stackRegion (bottom : VirtualAddress) (limit : Nat) (slack : Nat)
  | framesReady (count : Nat)
  | swapReady (sectors : Nat) (slots : Nat)
  | spaceCreated (process : ProcessId)
  | spaceTornDown (process : ProcessId) (teardown : Teardown)
  | mapped (mapping : MappingId) (pages : Nat) (base : VirtualAddress)
      (process : ProcessId)
  | unmapped (mapping : MappingId) (pages : Nat)
  | writeBackFailed (page : PageNumber) (mapping : MappingId) (cause : VmError)
  | faulted (address : VirtualAddress) (process : ProcessId) (source : PageSource)
  | faultUnresolved (address : VirtualAddress) (process : ProcessId) (cause : FaultError)
  | secondChance (page : PageNumber) (owner : ProcessId)
  | evictionRefused (page : PageNumber) (owner : ProcessId) (cause : VmError)
  | evicted (frame : FrameNumber) (page : PageNumber) (owner : ProcessId)
  | slotWritten (slot : SwapSlot)
  | slotRead (slot : SwapSlot)
deriving DecidableEq, Repr

namespace Level

def name : Level → String
  | error => "ERROR"
  | warn => "WARN"
  | info => "INFO"
  | debug => "DEBUG"
  | trace => "TRACE"

end Level

namespace PageSource

def debugText : PageSource → String
  | zero => "Zero"
  | swap slot => s!"Swap({slot.debugText})"
  | file mapping => s!"File({mapping.debugText})"

end PageSource

namespace Event

def level : Event → Level
  | stackRegion .. | framesReady .. | swapReady .. => .info
  | spaceCreated .. | spaceTornDown .. | mapped .. | unmapped .. => .debug
  | writeBackFailed .. => .warn
  | faulted .. | secondChance .. | slotWritten .. | slotRead .. => .trace
  | faultUnresolved .. | evictionRefused .. | evicted .. => .debug

/-- Whether the event is only of interest when the clock itself is studied. -/
def isDetail : Event → Bool
  | secondChance .. => true
  | _ => false

def message : Event → String
  | stackRegion bottom limit slack =>
      s!"vm: stack region {bottom.text}..{hexText limit}, slack {slack} bytes"
  | framesReady count => s!"frame table: {count} user frames"
  | swapReady sectors slots =>
      s!"swap: {sectors} sectors, {slots} slots of {pageSize} bytes"
  | spaceCreated process => s!"created address space for {process.text}"
  | spaceTornDown process teardown =>
      s!"tore down {process.text}: {teardown.debugText}"
  | mapped mapping pages base process =>
      s!"mapping {mapping.text}: {pages} pages at {base.text} for {process.text}"
  | unmapped mapping pages => s!"mapping {mapping.text}: unmapped {pages} pages"
  | writeBackFailed page mapping cause =>
      s!"write-back of {page.debugText} for mapping {mapping.text} failed: {cause.message}"
  | faulted address process source =>
      s!"fault: {address.text} in {process.text} from {source.debugText}"
  | faultUnresolved address process cause =>
      s!"unresolved fault at {address.text} in {process.text}: {cause.message}"
  | secondChance page owner =>
      s!"clock: second chance for {page.debugText} of {owner.text}"
  | evictionRefused page owner cause =>
      s!"cannot evict {page.debugText} of {owner.text}: {cause.message}"
  | evicted frame page owner =>
      s!"evicted {frame.debugText} backing {page.debugText} of {owner.text}"
  | slotWritten slot => s!"swap: wrote {slot.debugText}"
  | slotRead slot => s!"swap: read {slot.debugText}"

end Event
end DemandPaging
