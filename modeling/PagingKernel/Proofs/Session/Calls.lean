import PagingKernel.Kernel.Trap
import PagingKernel.Proofs.Action.Carries

/-!
# Sessions with the kernel

The kernel can be told to start workloads, to switch to processes that can run
and to handle traps, in any order and any number of times: before any process
has run, after a process was broken, and after calls that were refused.
-/

namespace PagingKernel

/-- What a call of the kernel answers. -/
inductive Answer where
  /-- The workload was started, and this process runs first. -/
  | started (first : Pid)
  /-- The process is the current one, and these are its registers. -/
  | entered (frame : TrapFrame)
  /-- The trap was handled, and this is who runs next. -/
  | handled (next : Dispatch)

/-- Why a call of the kernel is refused. -/
inductive Refusal where
  /-- The kernel does not come up. -/
  | start (cause : BootError)
  /-- The kernel stops. -/
  | trap (cause : Fatal)

/-- A call of the kernel. -/
inductive Call where
  /-- Creates the processes of a workload. -/
  | start (workload : Workload)
  /-- Passes control to a process. -/
  | switchTo (pid : Pid)
  /-- Handles a trap, while the machine reports the address of a fault. -/
  | handleTrap (faultAddress : Nat) (frame : TrapFrame)

/-- The trap reports that user code made an access that paging did not permit. -/
def TrapFrame.IsUserFault (frame : TrapFrame) : Prop :=
  frame.vector = Interrupt.pageFault ∧ (PageFaultCode.ofBits frame.errorCode.toNat).user = true

namespace Call

/-- Makes a call. -/
def perform : Call → Action Kernel Refusal Answer
  | start workload => do return .started (← (Kernel.start workload).mapCause .start)
  | switchTo pid => do return .entered (← Kernel.switchTo pid)
  | handleTrap faultAddress frame => do
      Kernel.modifyMachine fun machine => { machine with faultAddress }
      return .handled (← (Kernel.handleTrap frame).mapCause .trap)

/-- Control is passed to a process only if it can run. -/
def Permitted (kernel : Kernel) : Call → Prop
  | switchTo pid => kernel.resources.tasks.state? pid = some .runnable
  | _ => True

/-- User code is reported to have faulted although no process has run yet. -/
def Strays (kernel : Kernel) : Call → Prop
  | handleTrap _ frame => kernel.scheduler.current = .reserved ∧ frame.IsUserFault
  | _ => False

end Call

/-- A call with the kernel that it was made of. -/
structure Exchange where
  /-- The kernel before the call. -/
  before : Kernel
  /-- What was called. -/
  call : Call

/-- A session, its last call first, from booting to the kernel that it leads to. -/
inductive Session (machine : Machine) (ram : Ram) (programs : ProgramTable) (layout : Layout) :
    List Exchange → Kernel → Prop
  | boot {kernel : Kernel} (booted : Kernel.boot machine ram programs layout = .ok kernel) :
      Session machine ram programs layout [] kernel
  | call {history : List Exchange} {kernel : Kernel} {call : Call}
      (earlier : Session machine ram programs layout history kernel)
      (permitted : call.Permitted kernel) :
      Session machine ram programs layout (⟨kernel, call⟩ :: history) (call.perform.after kernel)

/-- No exchange of a history strays. -/
def Orderly (history : List Exchange) : Prop :=
  ∀ exchange ∈ history, ¬exchange.call.Strays exchange.before

end PagingKernel
