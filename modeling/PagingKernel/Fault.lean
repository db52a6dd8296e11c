import PagingKernel.Address
import PagingKernel.Pid

/-!
# Faults and failures

An operation of the kernel can end in two bad ways, and they are kept apart.
A *refusal* is an answer: the operation's own error type says why it would not
do what was asked.  A *fault* is a defect: the kernel broke a rule that it must
never break, such as reaching beyond the end of RAM, and stops on the spot.
-/

namespace PagingKernel

/-- The arithmetic on machine words that can overflow. -/
inductive WordOperation where
  | add
  | subtract
  | multiply
deriving DecidableEq, Repr

/-- The name of an operation in messages. -/
def WordOperation.name : WordOperation → String
  | add => "add"
  | subtract => "subtract"
  | multiply => "multiply"

/-- A broken rule of the kernel itself. -/
inductive Fault where
  /-- `len` bytes at `pa` do not lie in RAM. -/
  | outsideRam (pa : PhysAddr) (len : Nat)
  /-- A page copy was asked for with an address that is not the base of a page. -/
  | unalignedCopy
  /-- Control would pass to a process that is not runnable. -/
  | notRunnable (pid : Pid)
  /-- A machine word cannot hold the result of the operation. -/
  | overflow (operation : WordOperation)
deriving DecidableEq, Repr

/-- What the kernel says when it stops at a fault. -/
def Fault.message : Fault → String
  | outsideRam pa len =>
      "physical access " ++ pa.text ++ "+" ++ String.join (Text.Hex.number len) ++ " beyond RAM"
  | unalignedCopy => "assertion failed: src.is_page_aligned() && dst.is_page_aligned()"
  | notRunnable pid =>
      "assertion \x60left == right\x60 failed: switch_to: pid " ++ pid.text ++ " is not runnable"
  | overflow operation => "attempt to " ++ operation.name ++ " with overflow"

/-- How an operation fails: it refuses for a cause of type `ε`, or it faults. -/
inductive Failure (ε : Type) where
  /-- The operation answers that it does not do what was asked. -/
  | refused (cause : ε)
  /-- The kernel broke a rule of its own. -/
  | faulted (fault : Fault)
deriving DecidableEq, Repr

namespace Failure

variable {ε δ : Type}

/-- The same failure with its cause seen as part of a larger error. -/
def map (f : ε → δ) : Failure ε → Failure δ
  | refused cause => refused (f cause)
  | faulted fault => faulted fault

end Failure

end PagingKernel
