import PagingKernel.Ledger

/-!
# Violations of consistency

What the consistency check finds wrong when the ledger, the process table and
the page directories do not fit together.
-/

namespace PagingKernel

/-- Whose directory a structural page belongs to. -/
inductive DirectoryKind where
  /-- The kernel's own. -/
  | kernel
  /-- That of a process. -/
  | process (pid : Pid)
deriving DecidableEq, Repr

/-- The pieces in which the directory is named. -/
def DirectoryKind.pieces : DirectoryKind → List String
  | kernel => ["kernel directory"]
  | process pid => ["directory of pid ", pid.text]

/-- A way in which the kernel's books do not fit together. -/
inductive InvariantViolation where
  /-- The reserved process slot is in use. -/
  | reservedSlotInUse
  /-- A directory or page table has the wrong owner. -/
  | owner (dir : DirectoryKind) (page : PhysAddr) (expected found : Owner)
  /-- A directory or page table has the wrong number of references. -/
  | refcount (dir : DirectoryKind) (page : PhysAddr) (expected found : Nat)
  /-- A page is charged to a process whose slot is free. -/
  | orphan (page : PhysAddr) (pid : Pid)
  /-- The reference count and the owner of a page disagree about its being free. -/
  | freeMismatch (page : PhysAddr)
  /-- A directory refers to something that is not a page of physical memory. -/
  | badPage (dir : DirectoryKind) (page : PhysAddr)
deriving DecidableEq, Repr

namespace InvariantViolation

/-- The pieces in which a violation is written. -/
def pieces : InvariantViolation → List String
  | reservedSlotInUse => ["process slot 0 is in use"]
  | owner dir page expected found =>
      dir.pieces ++ [": page "] ++ page.pieces ++ [" owned by "] ++ found.pieces
        ++ [", expected "] ++ expected.pieces
  | refcount dir page expected found =>
      dir.pieces ++ [": page "] ++ page.pieces
        ++ [" has refcount ", found.repr, ", expected ", expected.repr]
  | orphan page pid => ["page "] ++ page.pieces ++ [" belongs to free pid ", pid.text]
  | freeMismatch page =>
      ["page "] ++ page.pieces ++ [" refcount and owner disagree about being free"]
  | badPage dir page => dir.pieces ++ [": page "] ++ page.pieces ++ [" is not physical memory"]

/-- A violation as text. -/
def message (violation : InvariantViolation) : String :=
  String.join violation.pieces

end InvariantViolation

end PagingKernel
