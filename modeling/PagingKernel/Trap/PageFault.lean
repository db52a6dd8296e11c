import PagingKernel.Address

/-!
# Page faults

A page fault as the processor reports it: the address that was accessed, what
was attempted and why it was not permitted.
-/

namespace PagingKernel

/-- What the error code of a page fault says. -/
structure PageFaultCode where
  /-- The page is mapped, but not for this access. -/
  protection : Bool
  /-- The access was a write. -/
  write : Bool
  /-- The access was made by user code. -/
  user : Bool
deriving DecidableEq, Repr

namespace PageFaultCode

/-- The meaning of an error code; its other bits mean nothing. -/
def ofBits (n : Nat) : PageFaultCode where
  protection := n % 2 = 1
  write := n / 2 % 2 = 1
  user := n / 4 % 2 = 1

/-- The error code with a meaning. -/
def bits (code : PageFaultCode) : Nat :=
  code.protection.toNat + 2 * code.write.toNat + 4 * code.user.toNat

end PageFaultCode

/-- An access that paging did not permit. -/
structure PageFault where
  /-- The address that was accessed. -/
  addr : VirtAddr
  /-- What was attempted, and why it was not permitted. -/
  code : PageFaultCode
  /-- The instruction that made the access. -/
  eip : UInt32
deriving DecidableEq, Repr

namespace PageFault

/-- The fault that the processor reports. -/
def ofReport (addr : Nat) (errorCode eip : UInt32) : PageFault :=
  ⟨⟨addr⟩, .ofBits errorCode.toNat, eip⟩

/-- What was attempted. -/
def operation (fault : PageFault) : String :=
  if fault.code.write then "write" else "read"

/-- Why it was not permitted. -/
def problem (fault : PageFault) : String :=
  if fault.code.protection then "protection problem" else "missing page"

/-- The pieces in which a fault is written. -/
def pieces (fault : PageFault) : List String :=
  Text.Hex.faultAddress fault.addr.raw
    ++ [" (", fault.operation, " ", fault.problem, ", eip="]
    ++ Text.Hex.number fault.eip.toNat ++ [")"]

/-- A fault as text. -/
def text (fault : PageFault) : String :=
  String.join fault.pieces

end PageFault

end PagingKernel
