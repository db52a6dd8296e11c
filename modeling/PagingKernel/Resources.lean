import PagingKernel.Console.Event
import PagingKernel.Process.Table

/-!
# Resources

Memory, the process table and the console: what system calls and the creation
of processes act on.
-/

namespace PagingKernel

/-- What processes are made of, and where they are reported. -/
structure Resources where
  /-- RAM and the ledger of its pages. -/
  memory : Memory
  /-- The slots of all processes. -/
  tasks : ProcessTable
  /-- Where events are reported. -/
  console : Console

namespace Resources

variable {ε α : Type}

/-- Resources with no process yet, and nothing reported. -/
def ofMemory (memory : Memory) : Resources :=
  ⟨memory, .vacant, {}⟩

/-- An action on memory as an action on the resources. -/
@[inline]
def onMemory (action : Action Memory ε α) : Action Resources ε α := fun ⟨memory, tasks, console⟩ =>
  match action memory with
  | .ok value memory => .ok value ⟨memory, tasks, console⟩
  | .error failure memory => .error failure ⟨memory, tasks, console⟩

/-- Changes the process table. -/
@[inline]
def modifyTasks (change : ProcessTable → ProcessTable) : Action Resources ε Unit :=
  fun ⟨memory, tasks, console⟩ => .ok () ⟨memory, change tasks, console⟩

/-- Changes the process table, unless the change is refused. -/
@[inline]
def tryModifyTasks (change : ProcessTable → Except ε ProcessTable) : Action Resources ε Unit :=
  fun ⟨memory, tasks, console⟩ =>
    match change tasks with
    | .ok tasks => .ok () ⟨memory, tasks, console⟩
    | .error cause => .error (.refused cause) ⟨memory, tasks, console⟩

/-- Reports an event. -/
def report (event : Event) : Action Resources ε Unit := fun ⟨memory, tasks, console⟩ =>
  .ok () ⟨memory, tasks, console.emit event.line⟩

end Resources

end PagingKernel
