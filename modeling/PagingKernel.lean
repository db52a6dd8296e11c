import PagingKernel.Action
import PagingKernel.Address
import PagingKernel.AddressSpace.Basic
import PagingKernel.AddressSpace.Fork
import PagingKernel.AddressSpace.UserString
import PagingKernel.Consistency.Check
import PagingKernel.Consistency.Violation
import PagingKernel.Console.Capture
import PagingKernel.Console.Event
import PagingKernel.Console.LogLine
import PagingKernel.Fault
import PagingKernel.Kernel.Boot
import PagingKernel.Kernel.Trap
import PagingKernel.Layout
import PagingKernel.Ledger
import PagingKernel.Machine
import PagingKernel.Memory
import PagingKernel.MemoryMap
import PagingKernel.PageFlags
import PagingKernel.PageTable.Directory
import PagingKernel.PageTable.Entry
import PagingKernel.Pid
import PagingKernel.Process.Spawn
import PagingKernel.Process.Table
import PagingKernel.Program.Image
import PagingKernel.Program.Place
import PagingKernel.Proofs.Action.Agree
import PagingKernel.Proofs.Action.Carries
import PagingKernel.Proofs.Action.Ends
import PagingKernel.Proofs.Action.Ensures
import PagingKernel.Proofs.AddressSpace.Built
import PagingKernel.Proofs.AddressSpace.Duplicate
import PagingKernel.Proofs.AddressSpace.Growth
import PagingKernel.Proofs.AddressSpace.History
import PagingKernel.Proofs.AddressSpace.MapPage
import PagingKernel.Proofs.AddressSpace.Planting
import PagingKernel.Proofs.AddressSpace.References
import PagingKernel.Proofs.AddressSpace.Release
import PagingKernel.Proofs.AddressSpace.Rollback
import PagingKernel.Proofs.AddressSpace.StringReading
import PagingKernel.Proofs.AddressSpace.Template
import PagingKernel.Proofs.AddressSpace.Translation
import PagingKernel.Proofs.AddressSpace.UserString
import PagingKernel.Proofs.AddressSpace.View
import PagingKernel.Proofs.Books.Balance
import PagingKernel.Proofs.Books.Growth
import PagingKernel.Proofs.Consistency.Check
import PagingKernel.Proofs.Consistency.Decision
import PagingKernel.Proofs.Console.Capture
import PagingKernel.Proofs.Creation.Calls
import PagingKernel.Proofs.Creation.Forks
import PagingKernel.Proofs.Creation.Setups
import PagingKernel.Proofs.Creation.Standing
import PagingKernel.Proofs.Kernel.Coherent
import PagingKernel.Proofs.Kernel.Handle
import PagingKernel.Proofs.Kernel.Schedule
import PagingKernel.Proofs.Kernel.Start
import PagingKernel.Proofs.Kernel.Turn
import PagingKernel.Proofs.Ledger.Accounting
import PagingKernel.Proofs.Ledger.Charge
import PagingKernel.Proofs.Ledger.Grant
import PagingKernel.Proofs.Ledger.History
import PagingKernel.Proofs.Ledger.Partition
import PagingKernel.Proofs.Mapping.Assembly
import PagingKernel.Proofs.Mapping.Copies
import PagingKernel.Proofs.Mapping.Exact
import PagingKernel.Proofs.Mapping.Forest
import PagingKernel.Proofs.Mapping.Straying
import PagingKernel.Proofs.Mapping.Unwinding
import PagingKernel.Proofs.Memory.Claims
import PagingKernel.Proofs.Memory.Pages
import PagingKernel.Proofs.Neighbours.Beside
import PagingKernel.Proofs.Neighbours.Changes
import PagingKernel.Proofs.Neighbours.Chart
import PagingKernel.Proofs.Neighbours.Loading
import PagingKernel.Proofs.Neighbours.Plot
import PagingKernel.Proofs.Neighbours.Reached
import PagingKernel.Proofs.PageTable.Range
import PagingKernel.Proofs.PageTable.Span
import PagingKernel.Proofs.PageTable.Walk
import PagingKernel.Proofs.Process.Setup
import PagingKernel.Proofs.Program.Loaded
import PagingKernel.Proofs.Program.Picture
import PagingKernel.Proofs.Program.Placed
import PagingKernel.Proofs.Resources.Attached
import PagingKernel.Proofs.Resources.Sound
import PagingKernel.Proofs.Resources.Spared
import PagingKernel.Proofs.Run.Allocation
import PagingKernel.Proofs.Run.Fairness
import PagingKernel.Proofs.Run.Forking
import PagingKernel.Proofs.Run.Interference
import PagingKernel.Proofs.Run.Isolation
import PagingKernel.Proofs.Run.KernelSpace
import PagingKernel.Proofs.Run.Lifetimes
import PagingKernel.Proofs.Run.Protection
import PagingKernel.Proofs.Run.References
import PagingKernel.Proofs.Run.Registers
import PagingKernel.Proofs.Run.Regular
import PagingKernel.Proofs.Run.Replay
import PagingKernel.Proofs.Run.Residue
import PagingKernel.Proofs.Run.Safety
import PagingKernel.Proofs.Run.Steps
import PagingKernel.Proofs.Run.Trace
import PagingKernel.Proofs.Run.Underway
import PagingKernel.Proofs.Session.Calls
import PagingKernel.Proofs.Session.Kept
import PagingKernel.Proofs.Session.Lifecycle
import PagingKernel.Proofs.Session.Traps
import PagingKernel.Proofs.Syscall.Calls
import PagingKernel.Proofs.Twin.Calls
import PagingKernel.Proofs.Twin.Memory
import PagingKernel.Proofs.Twin.Processes
import PagingKernel.Proofs.Twin.Programs
import PagingKernel.Proofs.Twin.Spaces
import PagingKernel.Proofs.Twin.Start
import PagingKernel.Proofs.Twin.Strings
import PagingKernel.Proofs.Twin.Traps
import PagingKernel.Ram
import PagingKernel.Resources
import PagingKernel.Scheduler
import PagingKernel.Syscall.Calls
import PagingKernel.Syscall.Table
import PagingKernel.Text.Hex
import PagingKernel.Text.Term
import PagingKernel.Text.Utf8
import PagingKernel.Trap.Frame
import PagingKernel.Trap.Interrupt
import PagingKernel.Trap.Outcome
import PagingKernel.Trap.PageFault
import PagingKernel.Workload
