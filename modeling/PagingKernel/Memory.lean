import PagingKernel.Ledger
import PagingKernel.Ram

/-!
# Memory under the ledger's control

The ledger and the RAM that it keeps the books of.  Operations of either part
act on the whole, and `allocZeroed` joins the two: it takes the lowest free page
and clears it, so that nothing left in it by an earlier use is ever seen.
-/

namespace PagingKernel

/-- RAM together with the ledger of its pages. -/
structure Memory where
  /-- Who owns each page, and how often it is referenced. -/
  ledger : Ledger
  /-- The contents of the pages. -/
  ram : Ram

namespace Memory

variable {ε α : Type}

/-- Memory at boot: the pages are divided as the layout says, and RAM holds what it held. -/
def ofLayout (layout : Layout) (ram : Ram) : Except Fault Memory :=
  (Memory.mk · ram) <$> Ledger.ofLayout layout

/-- Memory at boot stands exactly if every page was divided. -/
theorem ofLayout_eq_ok_iff {layout : Layout} {ram : Ram} {memory : Memory} :
    ofLayout layout ram = .ok memory ↔
      ∃ ledger, Ledger.ofLayout layout = .ok ledger ∧ memory = ⟨ledger, ram⟩ := by
  unfold ofLayout
  cases Ledger.ofLayout layout with
  | error fault => simp [Functor.map, Except.map]
  | ok ledger => simp [Functor.map, Except.map, eq_comm]

/-- An action on RAM as an action on memory. -/
@[inline]
def onRam (action : Action Ram ε α) : Action Memory ε α := fun ⟨ledger, ram⟩ =>
  match action ram with
  | .ok value ram => .ok value ⟨ledger, ram⟩
  | .error failure ram => .error failure ⟨ledger, ram⟩

/-- A change of the ledger that answers with a value. -/
@[inline]
def onLedger (change : Ledger → Except AllocError (α × Ledger)) : Action Memory AllocError α :=
  fun ⟨ledger, ram⟩ =>
    match change ledger with
    | .ok (value, ledger) => .ok value ⟨ledger, ram⟩
    | .error cause => .error (.refused cause) ⟨ledger, ram⟩

/-- Makes `owner` the only user of the free page at `pa`. -/
def allocate (pa : PhysAddr) (owner : Owner) : Action Memory AllocError Unit :=
  onLedger fun ledger => ((), ·) <$> ledger.allocate pa owner

/-- Adds a reference to the page at `pa`. -/
def share (pa : PhysAddr) : Action Memory AllocError Nat :=
  onLedger (·.share pa)

/-- Drops a reference to the page at `pa`. -/
def release (pa : PhysAddr) : Action Memory AllocError Nat :=
  onLedger (·.release pa)

/-- Takes the lowest free page for `owner`, with whatever it holds. -/
def claimFree (owner : Owner) : Action Memory AllocError PhysAddr := do
  let pa ← Action.require (← get).ledger.findFree .outOfMemory
  allocate pa owner
  return pa

/-- Takes the lowest free page for `owner` and fills it with zeros. -/
def allocZeroed (owner : Owner) : Action Memory AllocError PhysAddr := do
  let pa ← claimFree owner
  onRam (Ram.fill pa pageSize 0)
  return pa

end Memory

end PagingKernel
