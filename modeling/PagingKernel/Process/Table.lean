import PagingKernel.AddressSpace.Basic
import PagingKernel.Program.Image
import PagingKernel.Trap.Frame

/-!
# The process table

A fixed number of slots, each with the state of a process, its saved registers
and its address space.  The number of a slot is the identifier of its process.
Slot 0 is reserved.  A process is not created in a slot that is in use, nor where
its program, its space or its stack is refused.
-/

namespace PagingKernel

/-- Why a process is not created. -/
inductive SpawnError where
  /-- The identifier names the reserved slot, or no slot at all. -/
  | invalidPid (pid : Pid)
  /-- The slot is not free. -/
  | slotInUse (pid : Pid)
  /-- The program was not loaded. -/
  | load (cause : LoadError)
  /-- The address space or the stack was not built. -/
  | space (cause : AddressSpaceError)
deriving DecidableEq, Repr

namespace SpawnError

/-- What is said when a process is not created. -/
def message : SpawnError → String
  | invalidPid pid => "invalid pid " ++ pid.text
  | slotInUse pid => "process slot " ++ pid.text ++ " in use"
  | load cause => "program load failed: " ++ cause.message
  | space cause => cause.message

/-- The error as a constructor term. -/
def term : SpawnError → Text.Term
  | invalidPid pid => .applied "InvalidPid" pid.term
  | slotInUse pid => .applied "SlotInUse" pid.term
  | load cause => .applied "Load" cause.term
  | space cause => .applied "Space" cause.term

end SpawnError

/-- How far the life of a process has come. -/
inductive ProcessState where
  /-- The slot has no process. -/
  | free
  /-- The process can run. -/
  | runnable
  /-- The process made a fatal access and never runs again. -/
  | broken
deriving DecidableEq, Repr

/-- The address space that a slot refers to. -/
inductive SpaceRef where
  /-- The kernel's own, which counts a reference to its root for this. -/
  | kernel
  /-- A space of the process's own. -/
  | own (space : AddressSpace)
deriving DecidableEq, Repr

/-- A slot of the process table. -/
structure Process where
  /-- How far the life of the process has come. -/
  state : ProcessState
  /-- The registers to restore when the process runs. -/
  frame : TrapFrame
  /-- The address space of the process, if it has one. -/
  space : Option SpaceRef
deriving DecidableEq, Repr

namespace Process

/-- A slot without a process. -/
def vacant : Process :=
  ⟨.free, .user, none⟩

instance : Inhabited Process :=
  ⟨vacant⟩

/-- The space of the process's own, if it has one. -/
def ownSpace? (process : Process) : Option AddressSpace :=
  match process.space with
  | some (.own space) => some space
  | _ => none

/-- The directory to install when the process runs. -/
def root (process : Process) (kernel : AddressSpace) : PhysAddr :=
  (process.ownSpace?.getD kernel).root

end Process

/-- The slots of all processes. -/
structure ProcessTable where
  /-- The slots, by process identifier. -/
  slots : Vector Process slotCount

namespace ProcessTable

/-- The table in which every slot is free. -/
def vacant : ProcessTable :=
  ⟨Vector.replicate slotCount .vacant⟩

/-- The slot that never holds a process. -/
def reservedSlot : Fin slotCount :=
  ⟨0, by decide⟩

/-- The slot that an identifier names, if the table has it. -/
def slot? (pid : Pid) : Option (Fin slotCount) :=
  if inside : pid.index < slotCount then some ⟨pid.index, inside⟩ else none

/-- The process in a slot. -/
def process (table : ProcessTable) (slot : Fin slotCount) : Process :=
  table.slots[slot]

/-- The table with the process in a slot replaced. -/
def put (table : ProcessTable) (slot : Fin slotCount) (process : Process) : ProcessTable :=
  ⟨table.slots.set slot process⟩

/-- The process that an identifier names, if the table has its slot. -/
def get? (table : ProcessTable) (pid : Pid) : Option Process :=
  (slot? pid).map table.process

/-- Changes the process that an identifier names; without such a slot nothing changes. -/
def modify (table : ProcessTable) (pid : Pid) (change : Process → Process) : ProcessTable :=
  match slot? pid with
  | some slot => table.put slot (change (table.process slot))
  | none => table

/-- The state of the process that an identifier names. -/
def state? (table : ProcessTable) (pid : Pid) : Option ProcessState :=
  (table.get? pid).map (·.state)

/-- The slots in order with their identifiers. -/
def entries (table : ProcessTable) : List (Pid × Process) :=
  (List.finRange slotCount).map fun slot => (Pid.ofIndex slot.val, table.process slot)

/-- The lowest free slot that is not reserved. -/
def firstFree? (table : ProcessTable) : Option Pid :=
  ((List.finRange slotCount).find? fun slot =>
    slot ≠ reservedSlot && (table.process slot).state = .free).map fun slot => .ofIndex slot.val

/-- The slot for a new process: not the reserved one, free, and without a space. -/
def vacantSlot (table : ProcessTable) (pid : Pid) : Except SpawnError (Fin slotCount) :=
  if pid = .reserved then .error (.invalidPid pid)
  else
    match slot? pid with
    | none => .error (.invalidPid pid)
    | some slot =>
        let process := table.process slot
        if process.state ≠ .free || process.space.isSome then .error (.slotInUse pid)
        else .ok slot

/-- The number of slots that refer to the kernel's own space. -/
def kernelSharers (table : ProcessTable) : Nat :=
  table.slots.countP (·.space = some .kernel)

@[simp]
theorem process_put_self (table : ProcessTable) (slot : Fin slotCount) (process : Process) :
    (table.put slot process).process slot = process := by
  simp [ProcessTable.process, put]

theorem process_put (table : ProcessTable) (slot other : Fin slotCount) (process : Process) :
    (table.put slot process).process other =
      if other = slot then process else table.process other := by
  simp only [ProcessTable.process, put, Fin.getElem_fin, Vector.getElem_set]
  by_cases same : other = slot
  · simp [same]
  · rw [if_neg same, if_neg]
    intro sameNumber
    exact same (Fin.ext sameNumber.symm)

/-- A table is determined by its slots. -/
theorem ext_process {first second : ProcessTable}
    (same : ∀ slot, first.process slot = second.process slot) : first = second := by
  obtain ⟨firstSlots⟩ := first
  obtain ⟨secondSlots⟩ := second
  simp only [mk.injEq]
  ext1 number inside
  exact same ⟨number, inside⟩

theorem slot?_eq_some_iff {pid : Pid} {slot : Fin slotCount} :
    slot? pid = some slot ↔ pid = .ofIndex slot := by
  obtain ⟨number, inside⟩ := slot
  have small : number < UInt32.size := by
    simp only [slotCount, UInt32.size] at inside ⊢
    omega
  unfold slot?
  constructor
  · intro found
    split at found
    · simp only [Option.some.injEq, Fin.mk.injEq] at found
      subst found
      exact (Pid.ofIndex_index pid).symm
    · cases found
  · rintro rfl
    simp [Pid.index_ofIndex small, inside]

end ProcessTable

end PagingKernel
