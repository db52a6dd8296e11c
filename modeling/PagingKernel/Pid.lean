import PagingKernel.Text.Term

/-!
# Process identifiers

A process is named by the number of its slot in the process table.  Slot 0 is
reserved and never runs.
-/

namespace PagingKernel

/-- The name of a process: the number of its slot. -/
structure Pid where
  /-- The register word that carries the identifier to user code. -/
  raw : UInt32
deriving DecidableEq, Repr

namespace Pid

/-- The reserved slot, which never runs. -/
def reserved : Pid :=
  ⟨0⟩

/-- The identifier of slot `n`. -/
def ofIndex (n : Nat) : Pid :=
  ⟨UInt32.ofNat n⟩

/-- The slot that the identifier names. -/
def index (pid : Pid) : Nat :=
  pid.raw.toNat

/-- An identifier as text: its decimal digits. -/
def text (pid : Pid) : String :=
  pid.index.repr

/-- An identifier as a constructor term. -/
def term (pid : Pid) : Text.Term :=
  .applied "Pid" (.nat pid.index)

theorem index_ofIndex {n : Nat} (small : n < UInt32.size) : (ofIndex n).index = n := by
  simp only [ofIndex, index, UInt32.toNat_ofNat', Nat.mod_eq_of_lt small]

@[simp]
theorem ofIndex_index (pid : Pid) : ofIndex pid.index = pid := by
  simp [ofIndex, index]

end Pid

end PagingKernel
