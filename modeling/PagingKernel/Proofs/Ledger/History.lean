import Mathlib.Algebra.Group.Pi.Lemmas
import Mathlib.Logic.Relation
import PagingKernel.Proofs.Ledger.Partition

/-!
# Ledgers with a history

A ledger comes from a layout and changes by allocating, sharing and releasing
pages, one after another and in any order.  Whatever the history, exactly the
pages without references have no owner, and no page has more references than can
be counted.
-/

namespace PagingKernel

/-- An entry has an owner exactly if there are references, and not more than can be counted. -/
structure PageInfo.Proper (info : PageInfo) : Prop where
  owner_eq_free_iff : info.owner = .free ↔ info.refcount = 0
  refcount_le : info.refcount ≤ refcountLimit

namespace Ledger

/-- One operation takes the ledger from one state to the next. -/
inductive Step (before after : Ledger) : Prop
  | allocate {pa : PhysAddr} {owner : Owner} (done : before.allocate pa owner = .ok after)
  | share {pa : PhysAddr} {count : Nat} (done : before.share pa = .ok (count, after))
  | release {pa : PhysAddr} {count : Nat} (done : before.release pa = .ok (count, after))

/-- Operations, any number of them, take the ledger from one state to another. -/
abbrev Leads : Ledger → Ledger → Prop :=
  Relation.ReflTransGen Step

/-- The ledger came from a layout by operations of the ledger. -/
def Reached (layout : Layout) (ledger : Ledger) : Prop :=
  ∃ boot, ofLayout layout = .ok boot ∧ Leads boot ledger

/-- Every entry of the ledger is proper. -/
def Proper (ledger : Ledger) : Prop :=
  ∀ page, (ledger.entry page).Proper

variable {layout : Layout} {before after ledger : Ledger}

theorem Reached.trans (reached : Reached layout before) (leads : Leads before after) :
    Reached layout after := by
  obtain ⟨boot, laidOut, history⟩ := reached
  exact ⟨boot, laidOut, history.trans leads⟩

theorem Proper.tidy (proper : ledger.Proper) : ledger.Tidy := by
  intro page
  rw [(proper page).owner_eq_free_iff, Taken, not_not]

/-! ## What an operation does -/

section Operations

variable {pa : PhysAddr} {owner : Owner} {count : Nat}

/-- What is done to a page succeeds only at the base of one. -/
theorem bind_pageNumber_eq_ok_iff {α : Type} {act : Fin pageCount → Except AllocError α}
    {result : α} : (pageNumber pa >>= act) = .ok result ↔
      ∃ page : Fin pageCount, pa = .ofPage page ∧ act page = .ok result := by
  constructor
  · cases numbered : pageNumber pa with
    | error cause => exact fun impossible => by cases impossible
    | ok page => exact fun done => ⟨page, pageNumber_eq_ok_iff.mp numbered, done⟩
  · rintro ⟨page, rfl, done⟩
    rw [pageNumber_ofPage]
    exact done

theorem allocate_eq_ok_iff :
    ledger.allocate pa owner = .ok after ↔ ∃ page : Fin pageCount, pa = .ofPage page ∧
      owner ≠ .free ∧ (ledger.entry page).refcount = 0 ∧
      after = ledger.setEntry page ⟨owner, 1⟩ := by
  rw [allocate, bind_pageNumber_eq_ok_iff]
  refine exists_congr fun page => and_congr_right fun _ => ?_
  by_cases unowned : owner = .free
  · simp [unowned, throw, bind, Except.bind]
  · by_cases unreferenced : (ledger.entry page).refcount = 0
    · simp [unowned, unreferenced, pure, Except.pure, eq_comm]
    · simp [unowned, unreferenced, throw, bind, Except.bind]

theorem share_eq_ok_iff :
    ledger.share pa = .ok (count, after) ↔ ∃ page : Fin pageCount, pa = .ofPage page ∧
      (ledger.entry page).refcount ≠ 0 ∧ (ledger.entry page).refcount < refcountLimit ∧
      count = (ledger.entry page).refcount + 1 ∧ after = ledger.setEntry page
        ⟨(ledger.entry page).owner, (ledger.entry page).refcount + 1⟩ := by
  rw [share, bind_pageNumber_eq_ok_iff]
  refine exists_congr fun page => and_congr_right fun _ => ?_
  by_cases unreferenced : (ledger.entry page).refcount = 0
  · simp [unreferenced, throw, bind, Except.bind]
  · by_cases full : refcountLimit ≤ (ledger.entry page).refcount
    · simp [unreferenced, full, throw, bind, Except.bind]
    · simp [unreferenced, full, Nat.lt_of_not_le full, pure, Except.pure, eq_comm]

theorem release_eq_ok_iff :
    ledger.release pa = .ok (count, after) ↔ ∃ page : Fin pageCount, pa = .ofPage page ∧
      (ledger.entry page).refcount = count + 1 ∧ after = ledger.setEntry page
        ⟨if count = 0 then .free else (ledger.entry page).owner, count⟩ := by
  rw [release, bind_pageNumber_eq_ok_iff]
  refine exists_congr fun page => and_congr_right fun _ => ?_
  cases counted : (ledger.entry page).refcount with
  | zero => simp [counted, throw, bind, Except.bind]
  | succ left =>
      simp only [counted, Nat.add_one_ne_zero, if_false, Nat.add_sub_cancel, pure, Except.pure,
        Except.ok.injEq, Prod.mk.injEq, Nat.add_right_cancel_iff]
      constructor
      · rintro ⟨rfl, rfl⟩
        exact ⟨rfl, rfl⟩
      · rintro ⟨rfl, rfl⟩
        exact ⟨rfl, rfl⟩

end Operations

/-- An operation replaces one entry by a proper one. -/
theorem Step.eq_setEntry (step : Step before after) (proper : before.Proper) :
    ∃ page info, after = before.setEntry page info ∧ info.Proper := by
  cases step with
  | allocate done =>
      obtain ⟨page, -, owned, -, rfl⟩ := allocate_eq_ok_iff.mp done
      exact ⟨page, _, rfl, ⟨by simp [owned], (by decide : 1 ≤ refcountLimit)⟩⟩
  | share done =>
      obtain ⟨page, -, referenced, room, -, rfl⟩ := share_eq_ok_iff.mp done
      have owned := (proper page).owner_eq_free_iff.not.mpr referenced
      exact ⟨page, _, rfl, ⟨by simp [owned], room⟩⟩
  | @release pa count done =>
      obtain ⟨page, -, counted, rfl⟩ := release_eq_ok_iff.mp done
      have owned := (proper page).owner_eq_free_iff.not.mpr (by omega)
      have limited := (proper page).refcount_le
      refine ⟨page, _, rfl, ⟨?_, by dsimp only; omega⟩⟩
      dsimp only
      split
      · rename_i last
        simp [last]
      · rename_i more
        simp [owned, more]

theorem Step.proper (step : Step before after) (proper : before.Proper) : after.Proper := by
  obtain ⟨page, info, rfl, replaced⟩ := step.eq_setEntry proper
  intro other
  rw [entry_setEntry]
  split
  · exact replaced
  · exact proper other

theorem Leads.proper (leads : Leads before after) (proper : before.Proper) : after.Proper := by
  induction leads with
  | refl => exact proper
  | tail _ step ih => exact step.proper ih

theorem AtBoot.proper (atBoot : ledger.AtBoot) : ledger.Proper := by
  intro page
  rcases atBoot page with entry_eq | entry_eq | entry_eq <;> rw [entry_eq] <;>
    exact ⟨by decide, by decide⟩

/-- A ledger with a history has proper entries. -/
theorem Reached.proper (reached : Reached layout ledger) : ledger.Proper := by
  obtain ⟨boot, laidOut, history⟩ := reached
  exact history.proper (atBoot_of_ofLayout laidOut).proper

/-! ## Ledgers that have a history -/

variable {owner : Owner} {page : Fin pageCount}

theorem leads_allocate (untaken : ¬ledger.Taken page) (owned : owner ≠ .free) :
    Leads ledger (ledger.charge owner (Pi.single page 1)) :=
  .single (.allocate (allocate_eq_ok untaken owned))

theorem leads_share (taken : ledger.Taken page) (owner : Owner) {count : Nat}
    (fits : (ledger.entry page).refcount + count ≤ refcountLimit) :
    Leads ledger (ledger.charge owner (Pi.single page count)) := by
  induction count with
  | zero =>
      rw [Pi.single_zero, charge_zero]
  | succ count ih =>
      have earlier := ih (by omega)
      have still := taken.charge owner (Pi.single page count)
      have room : ((ledger.charge owner (Pi.single page count)).entry page).refcount <
          refcountLimit := by
        rw [entry_charge, Pi.single_eq_same, PageInfo.charge]
        dsimp only
        omega
      have shared := Step.share (share_eq_ok still room owner)
      rw [charge_charge, ← Pi.single_add] at shared
      exact earlier.tail shared

/-- A free page may get as many references as can be counted. -/
theorem leads_charge_single (untaken : ¬ledger.Taken page) (owned : owner ≠ .free) {count : Nat}
    (fits : count + 1 ≤ refcountLimit) :
    Leads ledger (ledger.charge owner (Pi.single page (count + 1))) := by
  have once : ((ledger.charge owner (Pi.single page 1)).entry page).refcount = 1 := by
    rw [entry_charge_of_untaken untaken owner (Pi.single_eq_same page 1)]
  have shares := leads_share (taken_charge_single ledger owner page) owner
    (show _ + count ≤ refcountLimit by omega)
  rw [charge_charge, ← Pi.single_add, Nat.add_comm 1 count] at shares
  exact (leads_allocate untaken owned).trans shares

end Ledger

end PagingKernel
