import PagingKernel.Console.LogLine
import PagingKernel.Layout
import PagingKernel.Process.Table
import PagingKernel.Trap.Outcome
import PagingKernel.Workload

/-!
# Logged events

Everything that the kernel reports in its log, with the line that reports it.
The caller of a system call that fails only learns that it did; the log shows the
cause as a constructor term.
-/

namespace PagingKernel

/-- Why a system call fails. -/
inductive SyscallError where
  /-- There is no system call with this vector. -/
  | invalidSyscall
  /-- The caller has no address space of its own. -/
  | noAddressSpace
  /-- The address is not the base of a page of the process range. -/
  | badAddress (va : VirtAddr)
  /-- The caller already maps the address. -/
  | alreadyMapped (va : VirtAddr)
  /-- No process slot is free. -/
  | processTableFull
  /-- The ledger refused a page. -/
  | alloc (cause : AllocError)
  /-- An address space refused. -/
  | addressSpace (cause : AddressSpaceError)
  /-- The process was not created. -/
  | spawn (cause : SpawnError)
deriving DecidableEq, Repr

namespace SyscallError

/-- The error as a constructor term. -/
def term : SyscallError → Text.Term
  | invalidSyscall => .atom "InvalidSyscall"
  | noAddressSpace => .atom "NoAddressSpace"
  | badAddress va => .applied "BadAddress" va.term
  | alreadyMapped va => .applied "AlreadyMapped" va.term
  | processTableFull => .atom "ProcessTableFull"
  | alloc cause => .applied "Alloc" cause.term
  | addressSpace cause => .applied "AddressSpace" cause.term
  | spawn cause => .applied "Spawn" cause.term

/-- The pieces in which the error is written. -/
def pieces (error : SyscallError) : List String :=
  error.term.pieces

/-- The error as text. -/
def message (error : SyscallError) : String :=
  error.term.text

end SyscallError

/-- Something that the kernel reports in its log. -/
inductive Event where
  /-- The kernel's own address space stands. -/
  | kernelBuilt (layout : Layout) (freePages : Nat) (root : PhysAddr)
  /-- A program has been placed in an address space. -/
  | programLoaded (name : String) (entry : VirtAddr)
  /-- A process has been created for a program. -/
  | processCreated (pid : Pid) (program : Nat) (root : PhysAddr)
  /-- All processes of the boot workload have been created. -/
  | workloadCreated (workload : Workload)
  /-- The scheduler has chosen a process. -/
  | picked (pid current : Pid)
  /-- A process has been given a page. -/
  | pageAllocated (pid : Pid) (va : VirtAddr) (pa : PhysAddr)
  /-- A process has been forked. -/
  | forked (pid child : Pid)
  /-- A system call failed. -/
  | callFailed (pid : Pid) (vector : UInt32) (cause : SyscallError)
  /-- A process made an access that paging did not permit. -/
  | userPageFault (pid : Pid) (fault : PageFault)
  /-- A stop was asked for while no process could run. -/
  | stopWhileIdle
  /-- A stop was asked for when an interrupt arrived. -/
  | stopRequested
  /-- The kernel cannot go on. -/
  | died (cause : Fatal)

/-- The line that reports an event. -/
def Event.line : Event → LogLine
  | kernelBuilt layout freePages root =>
      ⟨.info, "boot",
        ["kernel "] ++ Text.Hex.number layout.imageStart ++ [".."]
          ++ Text.Hex.number layout.imageEnd ++ [" stack top "]
          ++ Text.Hex.number layout.stackTop ++ [", ", freePages.repr,
            " free pages, kernel root "] ++ root.pieces⟩
  | programLoaded name entry =>
      ⟨.debug, "loader", ["loaded ", name, " entry="] ++ Text.Hex.number entry.raw⟩
  | processCreated pid program root =>
      ⟨.info, "task",
        ["pid ", pid.text, " runs program ", program.repr, " root="] ++ root.pieces⟩
  | workloadCreated workload =>
      ⟨.info, "boot",
        [workload.name, " workload: ", workload.processes.length.repr, " processes"]⟩
  | picked pid current => ⟨.trace, "sched", ["pick ", pid.text, " after ", current.text]⟩
  | pageAllocated pid va pa =>
      ⟨.debug, "syscall",
        ["page_alloc pid=", pid.text, " va="] ++ va.pieces ++ [" pa="] ++ pa.pieces⟩
  | forked pid child => ⟨.info, "syscall", ["fork pid=", pid.text, " -> child=", child.text]⟩
  | callFailed pid vector cause =>
      ⟨.debug, "syscall",
        ["pid ", pid.text, " vector ", vector.toNat.repr, " failed: "] ++ cause.pieces⟩
  | userPageFault pid fault =>
      ⟨.warn, "trap", ["Process ", pid.text, " page fault for "] ++ fault.pieces ++ ["!"]⟩
  | stopWhileIdle => ⟨.info, "sched", ["abort requested while idle"]⟩
  | stopRequested => ⟨.info, "trap", ["abort requested"]⟩
  | died cause => ⟨.error, "kernel", cause.pieces⟩

end PagingKernel
