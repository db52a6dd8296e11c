import PagingKernel.AddressSpace.UserString
import PagingKernel.Kernel.Boot
import PagingKernel.Text.Utf8

/-!
# Handling traps

Control passes to a process by `switchTo` and comes back by `handleTrap`, which
saves the registers of the process, goes over to the kernel's own directory and
does what the interrupt asks.  Every trap that does not stop the kernel ends with
a consistency check and a decision about who runs next.

`interrupt`, `schedule`, `run` and `die` end with control leaving the kernel.
-/

namespace PagingKernel.Kernel

variable {ε : Type}

/-- Bytes of a process's message that are shown when it stops the machine. -/
abbrev messageLimit : Nat := 160

/-- Makes a runnable process the current one, installs its directory and gives its registers. -/
def switchTo (pid : Pid) : Action Kernel ε TrapFrame := do
  match (← get).resources.tasks.get? pid with
  | none => Action.stop (.notRunnable pid)
  | some process =>
      if process.state ≠ .runnable then
        Action.stop (.notRunnable pid)
      modifyScheduler (·.setCurrent pid)
      let root := process.root (← get).space
      modifyMachine (·.loadDirectory root)
      return process.frame

/-- The message at a user address of a process, as the kernel shows it. -/
def userMessage (kernel : Kernel) (pid : Pid) (pointer : UInt32) : Except Fault String :=
  let own := (kernel.resources.tasks.get? pid).bind (·.ownSpace?)
  let space := own.getD kernel.space
  match space.readString kernel.resources.memory.ram ⟨pointer.toNat⟩ messageLimit with
  | .ok bytes => .ok (Text.Utf8.text bytes)
  | .error (.refused cause) => .ok ("<unreadable message: " ++ cause.message ++ ">")
  | .error (.faulted fault) => .error fault

/-- Chooses who runs next. -/
def scheduleNext : Action Kernel ε Dispatch := do
  match ← onResources ((← get).scheduler.choose) with
  | some pid => return .resume pid
  | none => return .idle

/-- Deals with a page fault: user code that caused one never runs again. -/
def handlePageFault (pid : Pid) (frame : TrapFrame) : Action Kernel Fatal Dispatch := do
  let fault := PageFault.ofReport (← get).machine.faultAddress frame.errorCode frame.eip
  if !fault.code.user then
    Action.refuse (.kernelPageFault fault)
  onResources (Resources.report (.userPageFault pid fault))
  onResources (Resources.modifyTasks (·.modify pid fun process =>
    { process with state := .broken }))
  scheduleNext

/-- Performs the system call of a vector, if it has one, and lets the caller go on. -/
def handleCall (pid : Pid) (vector : UInt32) (frame : TrapFrame) :
    Action Kernel Fatal Dispatch := do
  let syscalls := (← get).syscalls
  if !syscalls.handles vector then
    Action.refuse (.unexpectedInterrupt vector)
  let space := (← get).space
  let result ← (onResources (syscalls.dispatch space vector pid frame.eax)).answer
  if let .error cause := result then
    onResources (Resources.report (.callFailed pid vector cause))
  onResources (Resources.modifyTasks (·.modify pid fun process =>
    { process with frame := { process.frame with eax := Syscall.answer result } }))
  return .resume pid

/-- Does what an interrupt asks. -/
def dispatch (pid : Pid) (frame : TrapFrame) : Action Kernel Fatal Dispatch :=
  match TrapCause.ofVector frame.vector with
  | .panic => do
      let message ← Action.peek (userMessage · pid frame.eax)
      Action.refuse (.panic pid message)
  | .yield => scheduleNext
  | .timer => do
      modifyScheduler (·.tick)
      scheduleNext
  | .pageFault => handlePageFault pid frame
  | .call vector => handleCall pid vector frame

/-- Handles a trap that the current process took, and decides who runs next. -/
def handleTrap (frame : TrapFrame) : Action Kernel Fatal Dispatch := do
  let pid := (← get).scheduler.current
  onResources (Resources.modifyTasks (·.modify pid fun process => { process with frame }))
  let root := (← get).space.root
  modifyMachine (·.loadDirectory root)
  let next ← dispatch pid frame
  (Action.inspect check).mapCause .invariant
  return next

/-! ## Leaving the kernel -/

/-- Lets a process run. -/
def run (pid : Pid) : Action Kernel ε Departure := do
  let frame ← switchTo pid
  return .resumed frame

/-- Lets the next process run; without one, the kernel waits for a stop. -/
def schedule : Action Kernel ε Departure := do
  match ← scheduleNext with
  | .resume pid => run pid
  | .idle =>
      if (← get).machine.stopRequested then
        onResources (Resources.report .stopWhileIdle)
        return .halted
      return .waiting

/-- Reports a condition that stops the kernel, and stops. -/
def die (cause : Fatal) : Action Kernel ε Departure := do
  onResources (Resources.report (.died cause))
  return .halted

/-- The entry of a trap: stops if asked to, and otherwise handles the trap and leaves. -/
def interrupt (frame : TrapFrame) : Action Kernel ε Departure := do
  if (← get).machine.stopRequested then
    onResources (Resources.report .stopRequested)
    return .halted
  match ← (handleTrap frame).answer with
  | .ok (.resume pid) => run pid
  | .ok .idle => schedule
  | .error cause => die cause

end PagingKernel.Kernel
