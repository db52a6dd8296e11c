import PagingKernel.AddressSpace.Fork
import PagingKernel.Program.Place
import PagingKernel.Resources

/-!
# Creating processes

A process is created in a vacant slot.  First the slot is attached to the
kernel's own address space, then a space of its own is built for the program and
takes its place, and only then can the process run.  A refusal on the way leaves
the slot vacant and gives back what was taken.
-/

namespace PagingKernel

namespace ProcessTable

/-- The table with a slot attached to the kernel's own space, with new registers. -/
def attachKernel (table : ProcessTable) (slot : Fin slotCount) : ProcessTable :=
  table.put slot { table.process slot with frame := .user, space := some .kernel }

/-- The table with a forked child in its vacant slot, ready to run. -/
def insertForked (table : ProcessTable) (child : Pid) (frame : TrapFrame) (space : AddressSpace) :
    Except SpawnError ProcessTable := do
  let slot ← table.vacantSlot child
  return table.put slot ⟨.runnable, frame, some (.own space)⟩

/-- A process that runs a program for the first time, in a space of its own. -/
def startProcess (entry : VirtAddr) (space : AddressSpace) (process : Process) : Process where
  state := .runnable
  frame := { process.frame with
    eip := UInt32.ofNat entry.raw, esp := UInt32.ofNat virtualSize }
  space := some (.own space)

end ProcessTable

namespace Resources

/-- Gives a vacant slot new registers and attaches it to the kernel's own space, whose root gains
a reference.  The slot stays free. -/
def initProcess (kernel : AddressSpace) (pid : Pid) : Action Resources SpawnError Unit := do
  let slot ← Action.ofExcept ((← get).tasks.vacantSlot pid)
  let _ ← (onMemory (Memory.share kernel.root)).mapCause (.space ∘ .alloc)
  modifyTasks (·.attachKernel slot)

/-- Drops the reference that a slot attached to the kernel's own space holds. -/
def detachKernel (kernel : AddressSpace) : Action Resources SpawnError Unit := do
  let _ ← (onMemory (Memory.release kernel.root)).mapCause (.space ∘ .alloc)

/-- Places a program in a space and reports it. -/
def loadProgram (image : ProgramImage) (space : AddressSpace) :
    Action Resources LoadError VirtAddr := do
  let entry ← onMemory (image.place space)
  report (.programLoaded image.name entry)
  return entry

/-- Places a program and a cleared stack page in a space. -/
def populate (image : ProgramImage) (space : AddressSpace) :
    Action Resources SpawnError VirtAddr := do
  let entry ← (loadProgram image space).mapCause .load
  let _ ← (onMemory (space.mapFresh ⟨processStack⟩ .userRW)).mapCause .space
  return entry

/-- Builds a space of its own for a process with its program and stack. -/
def buildSpace (kernel : AddressSpace) (programs : ProgramTable) (pid : Pid) (program : Nat) :
    Action Resources SpawnError (AddressSpace × VirtAddr) := do
  let image ← Action.require (programs.image? program) (.load (.unknownProgram program))
  let space ← (onMemory (AddressSpace.ofTemplate kernel pid)).mapCause .space
  let entry ← (populate image space).onRefusal ((onMemory space.release).mapCause .space)
  return (space, entry)

/-- Creates a process that runs a program; a refusal leaves the slot vacant. -/
def setup (kernel : AddressSpace) (programs : ProgramTable) (pid : Pid) (program : Nat) :
    Action Resources SpawnError Unit := do
  initProcess kernel pid
  let (space, entry) ← (buildSpace kernel programs pid program).onRefusal do
    detachKernel kernel
    modifyTasks (·.modify pid fun _ => .vacant)
  detachKernel kernel
  modifyTasks (·.modify pid (ProcessTable.startProcess entry space))
  report (.processCreated pid program space.root)

end Resources

end PagingKernel
