import PagingKernel.Process.Spawn

/-!
# System calls

The calls that answer their caller and let it go on.  The argument and the
answer travel in one register, and a failed call answers `failedCall` there.
-/

namespace PagingKernel

/-- A system call that answers its caller. -/
inductive Syscall where
  /-- The caller's process identifier. -/
  | getPid
  /-- A cleared page at an address of the caller's choice. -/
  | pageAlloc
  /-- A copy of the caller as a new process. -/
  | fork
deriving DecidableEq, Repr

namespace Syscall

/-- The answer of a failed call. -/
def failedCall : UInt32 :=
  0xffffffff

/-- The answer that the caller finds in its register. -/
def answer : Except SyscallError UInt32 → UInt32
  | .ok value => value
  | .error _ => failedCall

/-- The page that a request names: the base of a page of the process range. -/
def requestedPage (argument : UInt32) : Except SyscallError VirtAddr :=
  let va : VirtAddr := ⟨argument.toNat⟩
  if va.isAligned && processStart ≤ va.raw && va.raw < virtualSize then .ok va
  else .error (.badAddress va)

/-- The space of a process's own. -/
def ownSpace (pid : Pid) : Action Resources SyscallError AddressSpace := do
  Action.require (((← get).tasks.get? pid).bind (·.ownSpace?)) .noAddressSpace

/-- Maps a cleared page, open for reading and writing, at the address the caller asks for. -/
def performPageAlloc (caller : Pid) (argument : UInt32) : Action Resources SyscallError UInt32 := do
  let va ← Action.ofExcept (requestedPage argument)
  let space ← ownSpace caller
  let existing ← Action.peek fun resources : Resources => space.lookup resources.memory va
  if existing.isSome then
    Action.refuse (.alreadyMapped va)
  if (← get).memory.ledger.findFree.isNone then
    Action.refuse (.alloc .outOfMemory)
  let pa ← (Resources.onMemory (space.mapFresh va .userRW)).mapCause .addressSpace
  Resources.report (.pageAllocated caller va pa)
  return 0

/-- Copies the caller into the lowest free slot.  The child's registers are the caller's, but its
call answers 0; the caller's call answers the child's identifier. -/
def performFork (kernel : AddressSpace) (caller : Pid) : Action Resources SyscallError UInt32 := do
  let child ← Action.require (← get).tasks.firstFree? .processTableFull
  let parent ← Action.require ((← get).tasks.get? caller) .noAddressSpace
  let parentSpace ← Action.require parent.ownSpace? .noAddressSpace
  let space ← (Resources.onMemory (parentSpace.duplicate kernel child)).mapCause .addressSpace
  (Resources.tryModifyTasks (·.insertForked child { parent.frame with eax := 0 } space)).mapCause
    .spawn
  Resources.report (.forked caller child)
  return child.raw

/-- Performs a system call for a process. -/
def perform (call : Syscall) (kernel : AddressSpace) (caller : Pid) (argument : UInt32) :
    Action Resources SyscallError UInt32 :=
  match call with
  | getPid => return caller.raw
  | pageAlloc => performPageAlloc caller argument
  | fork => performFork kernel caller

end Syscall

end PagingKernel
