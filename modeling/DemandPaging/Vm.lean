import DemandPaging.Frame.Clock
import DemandPaging.StackRegion
import DemandPaging.Tenants

/-!
The state of virtual memory: the frames, their tenants, and the stack region that all
processes share. Operations on it are in the modules below `DemandPaging.Vm`.
-/

namespace DemandPaging

structure Vm (arch : Architecture) extends Tenants arch where
  stack : StackRegion
  frames : FrameTable arch

/-- Snapshot of resource usage. -/
structure Stats where
  totalFrames : Nat
  freeFrames : Nat
  residentFrames : Nat
  /-- Frames that can be taken away. -/
  queuedFrames : Nat
  swapSlots : Nat
  swapSlotsUsed : Nat
  evictions : Nat
  processes : Nat
  mappings : Nat
deriving DecidableEq, Repr

namespace Vm

variable {arch : Architecture}

/-- Virtual memory without processes, over the frames of a pool and a swap device. -/
def boot (config : StackConfig) (pool : FramePool arch) (device : SwapDevice)
    (files : FileStore) : Run (Vm arch) := do
  let stack ← config.region arch
  Run.log (.stackRegion stack.bottom arch.userLimit stack.slack)
  let frames ← FrameTable.new pool
  let swap ← SwapTable.new device
  return { stack, frames, swap, files }

def stores (vm : Vm arch) : Stores arch :=
  { frames := vm.frames, swap := vm.swap, files := vm.files }

def setStores (vm : Vm arch) (stores : Stores arch) : Vm arch :=
  { vm with frames := stores.frames, swap := stores.swap, files := stores.files }

/-- Obtains a frame for a process's page, taking it from another page if need be. -/
def acquireFrame (vm : Vm arch) (request : FrameRequest) (process : ProcessId)
    (page : PageNumber) : Run (Except VmError FrameNumber × Vm arch) := do
  let (result, frames, tenants) ←
    vm.frames.acquire Tenants.owners vm.toTenants request process page
  return (result, { vm with toTenants := tenants, frames })

def entry? (vm : Vm arch) (process : ProcessId) (address : VirtualAddress) :
    Option PageEntry := do
  let space ← vm.spaces[process]?
  space.entries[address.page]?

def stats (vm : Vm arch) : Stats :=
  { totalFrames := vm.frames.total
    freeFrames := vm.frames.free
    residentFrames := vm.frames.resident
    queuedFrames := vm.frames.queued
    swapSlots := vm.swap.capacity
    swapSlotsUsed := vm.swap.used
    evictions := vm.frames.evictions
    processes := vm.spaces.size
    mappings := vm.mappings.size }

end Vm
end DemandPaging
