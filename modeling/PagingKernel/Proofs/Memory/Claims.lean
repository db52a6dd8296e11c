import PagingKernel.Proofs.Action.Ensures
import PagingKernel.Proofs.Ledger.Charge
import PagingKernel.Proofs.Memory.Pages

/-!
# Claiming pages

What the operations on memory ensure, in terms of charges to the ledger and of
the pages whose bytes change.  A claim is refused only if no page is free, and
then memory is as it was.
-/

namespace PagingKernel.Memory

open PagingKernel.Action

variable {ε α : Type} {ledger : Ledger} {ram : Ram} {owner : Owner}

/-! ## Actions on one half of memory -/

section Halves

variable {done : α → Memory → Prop}

@[simp]
theorem ensures_onRam {action : Action Ram ε α} {refused : ε → Memory → Prop} :
    (onRam action).Ensures ⟨ledger, ram⟩ done refused ↔
      action.Ensures ram (fun value next => done value ⟨ledger, next⟩)
        fun cause next => refused cause ⟨ledger, next⟩ := by
  unfold Ensures onRam
  dsimp only
  cases action ram with
  | ok value next => rfl
  | error failure next => cases failure <;> rfl

theorem ensures_onLedger_ok {change : Ledger → Except AllocError (α × Ledger)} {value : α}
    {next : Ledger} {refused : AllocError → Memory → Prop}
    (changed : change ledger = .ok (value, next)) :
    (onLedger change).Ensures ⟨ledger, ram⟩ done refused ↔ done value ⟨next, ram⟩ := by
  simp only [Ensures, onLedger, changed]

theorem ensures_onLedger_error {change : Ledger → Except AllocError (α × Ledger)}
    {cause : AllocError} {refused : AllocError → Memory → Prop}
    (denied : change ledger = .error cause) :
    (onLedger change).Ensures ⟨ledger, ram⟩ done refused ↔ refused cause ⟨ledger, ram⟩ := by
  simp only [Ensures, onLedger, denied]

end Halves

/-! ## Taking and giving back pages -/

/-- A page is the next to be claimed: it is the lowest free page. -/
structure NextFree (ledger : Ledger) (page : Fin pageCount) : Prop where
  lowest : ledger.findFree = some (.ofPage page)
  untaken : ¬ledger.Taken page

/-- A claim is refused because every page is taken. -/
structure Exhausted (ledger : Ledger) (cause : AllocError) : Prop where
  cause_eq : cause = .outOfMemory
  freePages_eq : ledger.freePages = 0

/-- Of two pages that are next to be claimed, neither is another than the other. -/
theorem NextFree.unique {ledger : Ledger} {page other : Fin pageCount}
    (next : NextFree ledger page) (also : NextFree ledger other) : page = other :=
  PhysAddr.ofPage_inj.mp (Option.some.inj (next.lowest.symm.trans also.lowest))

/-- A page that is next to be claimed is free, so a claim is not refused. -/
theorem NextFree.not_exhausted {ledger : Ledger} {page : Fin pageCount} {cause : AllocError}
    (next : NextFree ledger page) : ¬Exhausted ledger cause := by
  intro exhausted
  have one := Ledger.freePages_charge_single next.untaken .kernel
  rw [exhausted.freePages_eq] at one
  omega

/-- A page is claimed whenever one is free, and keeps the bytes that it holds. -/
theorem ensures_claimFree (tidy : ledger.Tidy) (owned : owner ≠ .free) :
    (claimFree owner).Ensures ⟨ledger, ram⟩
      (fun pa memory => ∃ page : Fin pageCount, pa = .ofPage page ∧ NextFree ledger page ∧
        memory = ⟨ledger.charge owner (Pi.single page 1), ram⟩)
      fun cause memory => Exhausted ledger cause ∧ memory = ⟨ledger, ram⟩ := by
  unfold claimFree
  simp only [ensures_bind, ensures_get]
  cases found : ledger.findFree with
  | none =>
      rw [ensures_require_none]
      exact ⟨⟨rfl, Ledger.freePages_eq_zero_of_findFree tidy found⟩, rfl⟩
  | some pa =>
      obtain ⟨page, rfl, untaken, _⟩ := Ledger.findFree_eq_some tidy found
      rw [ensures_require_some, allocate, ensures_onLedger_ok, ensures_pure]
      · exact ⟨page, rfl, ⟨found, untaken⟩, rfl⟩
      · rw [Ledger.allocate_eq_ok untaken owned]
        rfl

/-- A cleared page is claimed whenever a page is free. -/
theorem ensures_allocZeroed (tidy : ledger.Tidy) (owned : owner ≠ .free) :
    (allocZeroed owner).Ensures ⟨ledger, ram⟩
      (fun pa memory => ∃ page : Fin pageCount, pa = .ofPage page ∧ NextFree ledger page ∧
        memory = ⟨ledger.charge owner (Pi.single page 1), ram.clear page⟩)
      fun cause memory => Exhausted ledger cause ∧ memory = ⟨ledger, ram⟩ := by
  unfold allocZeroed
  rw [ensures_bind]
  refine (ensures_claimFree tidy owned).mono ?_ fun _ _ held => held
  rintro _ _ ⟨page, rfl, next, rfl⟩
  rw [ensures_bind, ensures_onRam, ensures_of_eq_ok Ram.fill_ofPage, ensures_pure]
  exact ⟨page, rfl, next, rfl⟩

/-- A taken page is shared unless its references can no longer be counted. -/
theorem ensures_share {page : Fin pageCount} (taken : ledger.Taken page) (owner : Owner) :
    (share (.ofPage page)).Ensures ⟨ledger, ram⟩
      (fun _ memory => (ledger.entry page).refcount < refcountLimit ∧
        memory = ⟨ledger.charge owner (Pi.single page 1), ram⟩)
      fun cause memory => cause = .refcountOverflow ∧
        refcountLimit ≤ (ledger.entry page).refcount ∧ memory = ⟨ledger, ram⟩ := by
  unfold share
  by_cases room : (ledger.entry page).refcount < refcountLimit
  · rw [ensures_onLedger_ok (Ledger.share_eq_ok taken room owner)]
    exact ⟨room, rfl⟩
  · have full : refcountLimit ≤ (ledger.entry page).refcount := Nat.le_of_not_lt room
    rw [ensures_onLedger_error (Ledger.share_eq_error taken full)]
    exact ⟨rfl, full, rfl⟩

/-- Giving a page back undoes a charge of one reference. -/
theorem release_eq_ok {page : Fin pageCount} (tidy : ledger.Tidy) (rest : Fin pageCount → Nat) :
    release (.ofPage page) ⟨ledger.charge owner (rest + Pi.single page 1), ram⟩ =
      .ok ((ledger.entry page).refcount + rest page) ⟨ledger.charge owner rest, ram⟩ := by
  unfold release onLedger
  simp only [Ledger.release_charge tidy rest]

end PagingKernel.Memory
