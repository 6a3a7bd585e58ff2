import DemandPaging.Address
import DemandPaging.Address.Arithmetic
import DemandPaging.AddressSpace
import DemandPaging.Architecture
import DemandPaging.Console
import DemandPaging.Contents
import DemandPaging.Error
import DemandPaging.Event
import DemandPaging.File
import DemandPaging.Frame.Clock
import DemandPaging.Frame.Owners
import DemandPaging.Frame.Pool
import DemandPaging.Frame.Request
import DemandPaging.Frame.Script
import DemandPaging.Frame.Table
import DemandPaging.Mapping
import DemandPaging.Number
import DemandPaging.PageFault
import DemandPaging.Proofs.AddressSpace
import DemandPaging.Proofs.Admission
import DemandPaging.Proofs.Alike
import DemandPaging.Proofs.Allocation
import DemandPaging.Proofs.Anchors
import DemandPaging.Proofs.Arena
import DemandPaging.Proofs.Attempts
import DemandPaging.Proofs.Backed
import DemandPaging.Proofs.Canonical
import DemandPaging.Proofs.Clock
import DemandPaging.Proofs.Conservation
import DemandPaging.Proofs.Copies
import DemandPaging.Proofs.Departure
import DemandPaging.Proofs.Displacement
import DemandPaging.Proofs.Entries
import DemandPaging.Proofs.Exit
import DemandPaging.Proofs.Extent
import DemandPaging.Proofs.Failure
import DemandPaging.Proofs.Faults
import DemandPaging.Proofs.Files
import DemandPaging.Proofs.Following
import DemandPaging.Proofs.FrameContents
import DemandPaging.Proofs.Frames
import DemandPaging.Proofs.Imprint
import DemandPaging.Proofs.Isolation
import DemandPaging.Proofs.Layout
import DemandPaging.Proofs.Lockstep
import DemandPaging.Proofs.Loops
import DemandPaging.Proofs.Mappings
import DemandPaging.Proofs.Mirror
import DemandPaging.Proofs.Offsets
import DemandPaging.Proofs.Outcome
import DemandPaging.Proofs.Ownership
import DemandPaging.Proofs.Persistence
import DemandPaging.Proofs.Placement
import DemandPaging.Proofs.Plain
import DemandPaging.Proofs.Processes
import DemandPaging.Proofs.Provenance
import DemandPaging.Proofs.Questions
import DemandPaging.Proofs.Queue
import DemandPaging.Proofs.Quiet
import DemandPaging.Proofs.Reachable
import DemandPaging.Proofs.Readable
import DemandPaging.Proofs.Refusals
import DemandPaging.Proofs.Regular
import DemandPaging.Proofs.Residency
import DemandPaging.Proofs.Resolution
import DemandPaging.Proofs.Retry
import DemandPaging.Proofs.Ring
import DemandPaging.Proofs.Roles
import DemandPaging.Proofs.Rollback
import DemandPaging.Proofs.RoundTrip
import DemandPaging.Proofs.Safety
import DemandPaging.Proofs.Search
import DemandPaging.Proofs.SecondChance
import DemandPaging.Proofs.ShortReads
import DemandPaging.Proofs.Shortage
import DemandPaging.Proofs.Swap
import DemandPaging.Proofs.Sweep
import DemandPaging.Proofs.Tails
import DemandPaging.Proofs.Tenants
import DemandPaging.Proofs.Transfers
import DemandPaging.Proofs.Translation
import DemandPaging.Proofs.Transparency
import DemandPaging.Proofs.Twins
import DemandPaging.Proofs.Unbroken
import DemandPaging.Proofs.Unmapping
import DemandPaging.Proofs.Victim
import DemandPaging.Proofs.Vm
import DemandPaging.Proofs.Windows
import DemandPaging.Proofs.WriteBack
import DemandPaging.Run
import DemandPaging.Segment
import DemandPaging.StackRegion
import DemandPaging.Swap.Device
import DemandPaging.Swap.Slots
import DemandPaging.Swap.Table
import DemandPaging.Teardown
import DemandPaging.Tenants
import DemandPaging.Translation.Directory
import DemandPaging.Translation.Entry
import DemandPaging.Translation.Flags
import DemandPaging.Violation
import DemandPaging.Vm
import DemandPaging.Vm.Copy
import DemandPaging.Vm.Fault
import DemandPaging.Vm.Mapping
import DemandPaging.Vm.Operation
import DemandPaging.Vm.Process
