/-!
# Trap frames

The registers of a user program as a trap saves them, in the order in which
they lie on the kernel's stack.
-/

namespace PagingKernel

/-- The saved registers of a user program. -/
structure TrapFrame where
  edi : UInt32
  esi : UInt32
  ebp : UInt32
  /-- The stack pointer at the time the general registers were pushed; it is not restored. -/
  oesp : UInt32
  ebx : UInt32
  edx : UInt32
  ecx : UInt32
  eax : UInt32
  es : UInt32
  ds : UInt32
  /-- The number of the interrupt vector. -/
  vector : UInt32
  /-- The error code of the processor, or 0. -/
  errorCode : UInt32
  eip : UInt32
  cs : UInt32
  eflags : UInt32
  esp : UInt32
  ss : UInt32
deriving DecidableEq, Repr

namespace TrapFrame

/-- The segment selector of user code. -/
def userCode : UInt32 :=
  27

/-- The segment selector of user data. -/
def userData : UInt32 :=
  35

/-- The flag that lets interrupts in. -/
def interruptsEnabled : UInt32 :=
  512

/-- All registers zero. -/
def zero : TrapFrame :=
  ⟨0, 0, 0, 0, 0, 0, 0, 0, 0, 0, 0, 0, 0, 0, 0, 0, 0⟩

/-- A new user program: registers zero, user segments, interrupts let in. -/
def user : TrapFrame :=
  { zero with
    es := userData, ds := userData, cs := userCode, eflags := interruptsEnabled, ss := userData }

/-- The registers in the order in which they lie on the stack. -/
def registers (frame : TrapFrame) : List UInt32 :=
  [frame.edi, frame.esi, frame.ebp, frame.oesp, frame.ebx, frame.edx, frame.ecx, frame.eax,
   frame.es, frame.ds, frame.vector, frame.errorCode, frame.eip, frame.cs, frame.eflags,
   frame.esp, frame.ss]

end TrapFrame

end PagingKernel
