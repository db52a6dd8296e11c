import PagingKernel.Consistency.Check
import PagingKernel.Machine
import PagingKernel.Scheduler
import PagingKernel.Syscall.Table

/-!
# The kernel and its boot

All state of the kernel is one value, `Kernel`.  Booting divides physical memory
as the layout says and builds the kernel's own address space; starting creates
the processes of a workload.
-/

namespace PagingKernel

/-- Why the kernel does not come up. -/
inductive BootError where
  /-- The kernel's own address space was not built. -/
  | kernelSpace (cause : AddressSpaceError)
  /-- A process of the workload was not created. -/
  | spawn (pid : Pid) (program : Nat) (cause : SpawnError)
  /-- The books do not fit together. -/
  | invariant (violation : InvariantViolation)
deriving DecidableEq, Repr

/-- What is said when the kernel does not come up. -/
def BootError.message : BootError → String
  | kernelSpace cause => "kernel address space: " ++ cause.message
  | spawn pid program cause =>
      "process " ++ pid.text ++ " (program " ++ program.repr ++ "): " ++ cause.message
  | invariant violation => "virtual memory check failed: " ++ violation.message

/-- The state of the kernel. -/
structure Kernel where
  /-- The processor. -/
  machine : Machine
  /-- Memory, processes and console. -/
  resources : Resources
  /-- The programs that processes can run. -/
  programs : ProgramTable
  /-- The kernel's own address space. -/
  space : AddressSpace
  /-- Who runs, and how many ticks there have been. -/
  scheduler : Scheduler
  /-- The system calls. -/
  syscalls : SyscallTable

namespace Kernel

variable {ε α : Type}

/-- An action on the resources as an action on the kernel. -/
@[inline]
def onResources (action : Action Resources ε α) : Action Kernel ε α :=
  fun ⟨machine, resources, programs, space, scheduler, syscalls⟩ =>
    match action resources with
    | .ok value resources => .ok value ⟨machine, resources, programs, space, scheduler, syscalls⟩
    | .error failure resources =>
        .error failure ⟨machine, resources, programs, space, scheduler, syscalls⟩

/-- Changes the state of the processor. -/
@[inline]
def modifyMachine (change : Machine → Machine) : Action Kernel ε Unit :=
  fun ⟨machine, resources, programs, space, scheduler, syscalls⟩ =>
    .ok () ⟨change machine, resources, programs, space, scheduler, syscalls⟩

/-- Changes the state of the scheduler. -/
@[inline]
def modifyScheduler (change : Scheduler → Scheduler) : Action Kernel ε Unit :=
  fun ⟨machine, resources, programs, space, scheduler, syscalls⟩ =>
    .ok () ⟨machine, resources, programs, space, change scheduler, syscalls⟩

/-- Holds the ledger, the process table and the page directories against each other. -/
def check (kernel : Kernel) : Except (Failure InvariantViolation) Unit :=
  Consistency.check kernel.resources.memory kernel.space kernel.resources.tasks

/-- The kernel at boot, with no process yet.  The RAM may hold anything. -/
def boot (machine : Machine) (ram : Ram) (programs : ProgramTable) (layout : Layout) :
    Except (Failure BootError) Kernel := do
  let memory ← (Memory.ofLayout layout ram).mapError .faulted
  match AddressSpace.buildKernel memory with
  | .error failure _ => throw (failure.map .kernelSpace)
  | .ok space memory =>
      let event := Event.kernelBuilt layout memory.ledger.freePages space.root
      return {
        machine, programs, space
        resources := ⟨memory, .vacant, ({} : Console).emit event.line⟩
        scheduler := {}
        syscalls := .standard }

/-- Creates the processes of a list with their programs, in order. -/
def createProcesses : List (Pid × Nat) → Action Kernel BootError Unit :=
  Action.forEach fun (pid, program) => do
    let space := (← get).space
    let programs := (← get).programs
    (onResources (Resources.setup space programs pid program)).mapCause (.spawn pid program)

/-- Starts the timer, creates the processes of a workload and answers who runs first. -/
def start (workload : Workload) : Action Kernel BootError Pid := do
  modifyMachine (·.startTimer timerFrequency)
  createProcesses workload.processes
  (Action.inspect check).mapCause .invariant
  onResources (Resources.report (.workloadCreated workload))
  return workload.firstPid

end Kernel

end PagingKernel
