/-!
# Interrupt vectors

The vectors that the kernel knows, and what an interrupt with some vector asks
of it.
-/

namespace PagingKernel.Interrupt

/-- A page fault. -/
def pageFault : UInt32 :=
  14

/-- The interval timer. -/
def timer : UInt32 :=
  32

/-- A request to stop the machine with a message. -/
def panic : UInt32 :=
  48

/-- A request for the caller's process identifier. -/
def getPid : UInt32 :=
  49

/-- A request to let another process run. -/
def yield : UInt32 :=
  50

/-- A request for a page of memory. -/
def pageAlloc : UInt32 :=
  51

/-- A request to fork the caller. -/
def fork : UInt32 :=
  52

end PagingKernel.Interrupt

namespace PagingKernel

/-- What an interrupt asks of the kernel. -/
inductive TrapCause where
  /-- Stop the machine with the caller's message. -/
  | panic
  /-- Let another process run. -/
  | yield
  /-- Count a tick and let another process run. -/
  | timer
  /-- Deal with an access that paging did not permit. -/
  | pageFault
  /-- Perform the system call with this vector, if there is one. -/
  | call (vector : UInt32)
deriving DecidableEq, Repr

/-- What the interrupt with a vector asks of the kernel. -/
def TrapCause.ofVector (vector : UInt32) : TrapCause :=
  if vector = Interrupt.panic then panic
  else if vector = Interrupt.yield then yield
  else if vector = Interrupt.timer then timer
  else if vector = Interrupt.pageFault then pageFault
  else call vector

end PagingKernel
