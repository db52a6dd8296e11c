import PagingKernel.Consistency.Violation
import PagingKernel.Trap.PageFault

/-!
# Outcomes of a trap

Handling a trap ends with a decision about who runs next, or with a condition
that stops the kernel.
-/

namespace PagingKernel

/-- Who runs once a trap has been handled. -/
inductive Dispatch where
  /-- The process goes on, or starts. -/
  | resume (pid : Pid)
  /-- No process can run. -/
  | idle
deriving DecidableEq, Repr

/-- A condition that stops the kernel. -/
inductive Fatal where
  /-- A process asked to stop the machine. -/
  | panic (pid : Pid) (message : String)
  /-- The kernel itself made an access that paging did not permit. -/
  | kernelPageFault (fault : PageFault)
  /-- Nothing is known to do for the vector. -/
  | unexpectedInterrupt (vector : UInt32)
  /-- The kernel's books do not fit together. -/
  | invariant (violation : InvariantViolation)
deriving DecidableEq, Repr

namespace Fatal

/-- The pieces in which the condition is written. -/
def pieces : Fatal → List String
  | panic pid message => ["PANIC (pid ", pid.text, "): ", message]
  | kernelPageFault fault => ["Kernel page fault for "] ++ fault.pieces ++ ["!"]
  | unexpectedInterrupt vector => ["Unexpected interrupt ", vector.toNat.repr, "!"]
  | invariant violation => ["virtual memory check failed: "] ++ violation.pieces

/-- The condition as text. -/
def message (fatal : Fatal) : String :=
  String.join fatal.pieces

end Fatal

end PagingKernel
