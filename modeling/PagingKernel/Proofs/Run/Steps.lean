import PagingKernel.Kernel.Trap
import PagingKernel.Proofs.Kernel.Coherent

/-!
# Runs of the kernel

A run brings the kernel up on a machine whose memory may hold anything, starts a
workload and then alternates between the kernel and user code: control passes to
a process, which stores bytes wherever its directory lets it and traps with any
registers at all, and the kernel decides who runs next.
-/

namespace PagingKernel.Run

open PagingKernel.Action

/-- What a kernel is brought up with. -/
structure Setting where
  /-- The processor, in whatever state. -/
  machine : Machine
  /-- Physical memory, with whatever contents. -/
  ram : Ram
  /-- The programs that processes can run. -/
  programs : ProgramTable
  /-- Where the kernel lies in memory. -/
  layout : Layout
  /-- The boot command, if there is one. -/
  command : Option String

/-- What a run does next. -/
inductive Phase where
  /-- Control passes to a process. -/
  | entering (pid : Pid)
  /-- User code of a process runs. -/
  | user (pid : Pid)
  /-- No process can run. -/
  | idle
  /-- The kernel has stopped. -/
  | stopped (failure : Failure Fatal)

/-- The state of a run. -/
structure State where
  /-- The state of the kernel. -/
  kernel : Kernel
  /-- What the run does next. -/
  phase : Phase

/-- What happens in one step of a run. -/
inductive Event where
  /-- Control passes to the process whose turn it is. -/
  | enter
  /-- User code stores a byte. -/
  | store (address : UInt32) (byte : UInt8)
  /-- User code traps, while the machine reports the address of a fault. -/
  | trap (faultAddress : Nat) (frame : TrapFrame)

/-- A decision about who runs next as a phase. -/
def Phase.ofDispatch : Dispatch → Phase
  | .resume pid => .entering pid
  | .idle => .idle

/-- The state after an action of the kernel, whose result says what comes next. -/
def State.after {α : Type} (next : α → Phase) : EStateM.Result (Failure Fatal) Kernel α → State
  | .ok value kernel => ⟨kernel, next value⟩
  | .error failure kernel => ⟨kernel, .stopped failure⟩

/-- A store by user code: one byte of the page that its address is mapped to. -/
def storeByte (mapping : Mapping) (va : VirtAddr) (byte : UInt8) : Action Kernel Fatal Unit :=
  Kernel.onResources (Resources.onMemory (Memory.onRam
    (Ram.fill ⟨mapping.pa.raw + va.pageOffset⟩ 1 byte)))

/-- The address is mapped for the process of a slot, and its user code may write there. -/
structure MayStore (kernel : Kernel) (slot : Fin slotCount) (va : VirtAddr) (mapping : Mapping) :
    Prop where
  lookup : (kernel.directory slot).lookup kernel.resources.memory.ram va = .ok (some mapping)
  writable : mapping.flags.isUserWritable = true

/-- One step of a run. -/
inductive Step : State → Event → State → Prop
  | enter (kernel : Kernel) (pid : Pid) :
      Step ⟨kernel, .entering pid⟩ .enter (.after (fun _ => .user pid) (Kernel.switchTo pid kernel))
  | store (kernel : Kernel) (slot : Fin slotCount) (address : UInt32) (byte : UInt8)
      (mapping : Mapping) (permitted : MayStore kernel slot ⟨address.toNat⟩ mapping) :
      Step ⟨kernel, .user (.ofIndex slot)⟩ (.store address byte)
        (.after (fun _ => .user (.ofIndex slot))
          (storeByte mapping ⟨address.toNat⟩ byte kernel))
  | trap (kernel : Kernel) (pid : Pid) (faultAddress : Nat) (frame : TrapFrame) :
      Step ⟨kernel, .user pid⟩ (.trap faultAddress frame)
        (.after .ofDispatch (Kernel.handleTrap frame
          { kernel with machine := { kernel.machine with faultAddress } }))

/-- The states that runs from a setting reach. -/
inductive Reached (setting : Setting) : State → Prop
  | start {kernel started : Kernel} {pid : Pid}
      (booted : Kernel.boot setting.machine setting.ram setting.programs setting.layout =
        .ok kernel)
      (created : Kernel.start (.ofCommand setting.command) kernel = .ok pid started) :
      Reached setting ⟨started, .entering pid⟩
  | step {state next : State} {event : Event} (reached : Reached setting state)
      (step : Step state event next) : Reached setting next

end PagingKernel.Run
