import PagingKernel.Syscall.Calls
import PagingKernel.Trap.Interrupt

/-!
# The system call table

A window of consecutive interrupt vectors, each of which may have a system call.
-/

namespace PagingKernel

/-- The first vector of the window. -/
abbrev firstCallVector : Nat := 48

/-- Vectors in the window. -/
abbrev callVectorCount : Nat := 16

/-- Which system call each vector of the window has. -/
structure SyscallTable where
  /-- The calls, by their place in the window. -/
  calls : Vector (Option Syscall) callVectorCount

namespace SyscallTable

/-- The place of a vector in the window. -/
def slot? (vector : UInt32) : Option (Fin callVectorCount) :=
  if inside : firstCallVector ≤ vector.toNat ∧
      vector.toNat - firstCallVector < callVectorCount then
    some ⟨vector.toNat - firstCallVector, inside.2⟩
  else none

/-- The table without system calls. -/
def empty : SyscallTable :=
  ⟨Vector.replicate callVectorCount none⟩

/-- The table with a system call for a vector; outside the window nothing changes. -/
def register (table : SyscallTable) (vector : UInt32) (call : Syscall) : SyscallTable :=
  match slot? vector with
  | some slot => ⟨table.calls.set slot (some call)⟩
  | none => table

/-- The table with all system calls. -/
def standard : SyscallTable :=
  ((empty.register Interrupt.getPid .getPid).register Interrupt.pageAlloc .pageAlloc).register
    Interrupt.fork .fork

/-- The system call of a vector. -/
def call? (table : SyscallTable) (vector : UInt32) : Option Syscall :=
  (slot? vector).bind fun slot => table.calls[slot]

/-- Whether a vector has a system call. -/
def handles (table : SyscallTable) (vector : UInt32) : Bool :=
  (table.call? vector).isSome

/-- Performs the system call of a vector for a process. -/
def dispatch (table : SyscallTable) (kernel : AddressSpace) (vector : UInt32) (caller : Pid)
    (argument : UInt32) : Action Resources SyscallError UInt32 := do
  let call ← Action.require (table.call? vector) .invalidSyscall
  call.perform kernel caller argument

end SyscallTable

end PagingKernel
