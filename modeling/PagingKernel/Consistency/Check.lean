import PagingKernel.Consistency.Violation
import PagingKernel.Process.Table

/-!
# The consistency check

Holds the ledger, the process table and every live page directory against each
other, and answers with the first thing that does not fit.  It looks at the
structural pages only: the reserved slot, the root and the page tables of the
kernel's directory and of every process, and the owner of every page.
-/

namespace PagingKernel.Consistency

/-- Whether a structural page is a page of physical memory with the right owner and references. -/
def checkPage (memory : Memory) (dir : DirectoryKind) (page : PhysAddr) (owner : Owner)
    (refcount : Nat) : Except InvariantViolation Unit :=
  match memory.ledger.info page with
  | .error _ => .error (.badPage dir page)
  | .ok info =>
      if info.owner ≠ owner then .error (.owner dir page owner info.owner)
      else if info.refcount ≠ refcount then .error (.refcount dir page refcount info.refcount)
      else .ok ()

/-- Checks the pages a directory is made of: the root, then the page tables in order. -/
def checkDirectory (memory : Memory) (dir : Directory) (kind : DirectoryKind) (owner : Owner)
    (rootRefcount : Nat) : Except (Failure InvariantViolation) Unit := do
  (checkPage memory kind dir.root owner rootRefcount).mapError .refused
  let tables ← (dir.tables memory.ram).mapError .faulted
  tables.forM fun (_, table) => (checkPage memory kind table owner 1).mapError .refused

/-- Checks the directory of a process that is not free, if it has one of its own. -/
def checkProcess (memory : Memory) (pid : Pid) (process : Process) :
    Except (Failure InvariantViolation) Unit :=
  if process.state = .free then .ok ()
  else
    match process.ownSpace? with
    | none => .ok ()
    | some space => checkDirectory memory space.dir (.process pid) (.process pid) 1

/-- Whether the table has a process with this identifier. -/
def isLive (tasks : ProcessTable) (pid : Pid) : Bool :=
  match tasks.get? pid with
  | none => false
  | some process => process.state ≠ .free

/-- Checks the ledger's entry of a page against the process table. -/
def checkEntry (tasks : ProcessTable) (page : PhysAddr) (info : PageInfo) :
    Except InvariantViolation Unit :=
  if info.isFree ≠ decide (info.owner = .free) then .error (.freeMismatch page)
  else
    match info.owner with
    | .process pid => if isLive tasks pid then .ok () else .error (.orphan page pid)
    | _ => .ok ()

/-- Holds the ledger, the process table and the page directories against each other. -/
def check (memory : Memory) (kernel : AddressSpace) (tasks : ProcessTable) :
    Except (Failure InvariantViolation) Unit := do
  if (tasks.process ProcessTable.reservedSlot).state ≠ .free then
    throw (.refused .reservedSlotInUse)
  checkDirectory memory kernel.dir .kernel .kernel (1 + tasks.kernelSharers)
  tasks.entries.forM fun (pid, process) => checkProcess memory pid process
  (List.finRange pageCount).forM fun page =>
    (checkEntry tasks (.ofPage page.val) (memory.ledger.entry page)).mapError .refused

end PagingKernel.Consistency
