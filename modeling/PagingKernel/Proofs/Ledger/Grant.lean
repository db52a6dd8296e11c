import Mathlib.Data.Set.Insert
import PagingKernel.AddressSpace.Basic
import PagingKernel.Proofs.Memory.Claims

/-!
# Pages granted to an owner

`base.Grants owner held ledger` says that a ledger differs from `base` in one way
only: the pages in `held`, which nobody had, belong to `owner` and are referred to
once.  Nothing is assumed of the ledgers, so the books may be in any disorder
elsewhere.

Pages are granted by allocating them and given back by releasing them, and memory
that claims a page for an owner grants it.
-/

namespace PagingKernel

namespace Ledger

/-- The pages in `held`, which nobody had in `base`, are the owner's alone, and no other changed. -/
structure Grants (base : Ledger) (owner : Owner) (held : Set (Fin pageCount)) (ledger : Ledger) :
    Prop where
  granted : ∀ page ∈ held, base.entry page = .unowned ∧ ledger.entry page = ⟨owner, 1⟩
  kept : ∀ page ∉ held, ledger.entry page = base.entry page

section Grants

variable {base middle ledger : Ledger} {owner : Owner} {held more : Set (Fin pageCount)}
  {page : Fin pageCount}

theorem Grants.refl (base : Ledger) (owner : Owner) : base.Grants owner ∅ base :=
  ⟨fun _ impossible => impossible.elim, fun _ _ => rfl⟩

theorem Grants.taken (grants : base.Grants owner held ledger) (member : page ∈ held) :
    ledger.Taken page :=
  taken_of_entry (grants.granted page member).2

theorem Grants.untaken (grants : base.Grants owner held ledger) (member : page ∈ held) :
    ¬base.Taken page := by
  rw [Taken, (grants.granted page member).1]
  exact not_not.mpr rfl

/-- A page that is taken is not granted to anyone else. -/
theorem Grants.entry_of_taken (grants : base.Grants owner held ledger) (taken : base.Taken page) :
    ledger.entry page = base.entry page :=
  grants.kept page fun member => grants.untaken member taken

theorem Grants.taken_of_taken (grants : base.Grants owner held ledger) (taken : base.Taken page) :
    ledger.Taken page := by
  rw [Taken, grants.entry_of_taken taken]
  exact taken

theorem Grants.trans (early : base.Grants owner held middle)
    (late : middle.Grants owner more ledger) : base.Grants owner (held ∪ more) ledger where
  granted page member := by
    by_cases first : page ∈ held
    · refine ⟨(early.granted page first).1, ?_⟩
      rw [late.entry_of_taken (early.taken first)]
      exact (early.granted page first).2
    · have second := member.resolve_left first
      refine ⟨?_, (late.granted page second).2⟩
      rw [← early.kept page first]
      exact (late.granted page second).1
  kept page apart := by
    rw [late.kept page fun second => apart (.inr second),
      early.kept page fun first => apart (.inl first)]

/-- Allocating a page that nobody has grants it. -/
theorem grants_setEntry (unowned : base.entry page = .unowned) (owner : Owner) :
    base.Grants owner {page} (base.setEntry page ⟨owner, 1⟩) where
  granted other member := by
    obtain rfl : other = page := member
    exact ⟨unowned, entry_setEntry_self base other _⟩
  kept other apart := by
    rw [entry_setEntry, if_neg (show other ≠ page from apart)]

/-- Releasing a granted page takes the grant back. -/
theorem Grants.setEntry_unowned (grants : base.Grants owner held ledger) (member : page ∈ held) :
    base.Grants owner (held \ {page}) (ledger.setEntry page .unowned) where
  granted other stays := by
    rw [entry_setEntry, if_neg (show other ≠ page from stays.2)]
    exact grants.granted other stays.1
  kept other gone := by
    rw [entry_setEntry]
    split
    · rename_i same
      rw [same, (grants.granted page member).1]
    · rename_i apart
      exact grants.kept other fun stays => gone ⟨stays, apart⟩

end Grants

/-! ## Single operations -/

theorem findFree_unowned {ledger : Ledger} {pa : PhysAddr} (found : ledger.findFree = some pa) :
    ∃ page : Fin pageCount, pa = .ofPage page ∧ (ledger.entry page).owner = .free := by
  rw [findFree_eq] at found
  obtain ⟨page, first, rfl⟩ := Option.map_eq_some_iff.mp found
  exact ⟨page, rfl, of_decide_eq_true (findFinIdx?_eq_some_iff.mp first).1⟩

variable {ledger : Ledger} {page : Fin pageCount} {owner : Owner}

/-- Only a page without references is allocated. -/
theorem allocate_cases (ledger : Ledger) (page : Fin pageCount) (owner : Owner) :
    (ledger.entry page).refcount = 0 ∧
        ledger.allocate (.ofPage page) owner = .ok (ledger.setEntry page ⟨owner, 1⟩) ∨
      ∃ cause, ledger.allocate (.ofPage page) owner = .error cause := by
  unfold allocate
  simp only [pageNumber_ofPage, bind, Except.bind]
  by_cases unowned : owner = .free
  · rw [if_pos unowned]
    exact .inr ⟨_, rfl⟩
  · rw [if_neg unowned]
    by_cases unreferenced : (ledger.entry page).refcount = 0
    · exact .inl ⟨unreferenced, by rw [if_neg (not_not.mpr unreferenced)]; rfl⟩
    · rw [if_pos unreferenced]
      exact .inr ⟨_, rfl⟩

theorem release_single (single : ledger.entry page = ⟨owner, 1⟩) :
    ledger.release (.ofPage page) = .ok (0, ledger.setEntry page .unowned) := by
  simp only [release, pageNumber_ofPage, bind, Except.bind, single, one_ne_zero, if_false]
  rfl

end Ledger

namespace Memory

open PagingKernel.Action

variable {memory : Memory} {page other : Fin pageCount} {owner : Owner}

/-- Memory in which a page was cleared and granted to an owner. -/
def claimed (memory : Memory) (page : Fin pageCount) (owner : Owner) : Memory :=
  ⟨memory.ledger.setEntry page ⟨owner, 1⟩, memory.ram.clear page⟩

@[simp]
theorem ram_claimed (memory : Memory) (page : Fin pageCount) (owner : Owner) :
    (memory.claimed page owner).ram = memory.ram.clear page := by
  unfold claimed
  dsimp only

theorem grants_claimed (unowned : memory.ledger.entry page = .unowned) (owner : Owner) :
    memory.ledger.Grants owner {page} (memory.claimed page owner).ledger :=
  Ledger.grants_setEntry unowned owner

theorem samePage_claimed (apart : other ≠ page) (owner : Owner) :
    Ram.SamePage memory.ram (memory.claimed page owner).ram other := by
  rw [ram_claimed]
  exact Ram.samePage_clear_of_ne apart

/-- Whatever the books say, a page is claimed only if nobody has it, or else nothing changes. -/
theorem ensures_claimFree_unowned (memory : Memory) (owner : Owner) :
    (claimFree owner).Ensures memory
      (fun pa after => ∃ page : Fin pageCount, pa = .ofPage page ∧
        memory.ledger.entry page = .unowned ∧
          after = ⟨memory.ledger.setEntry page ⟨owner, 1⟩, memory.ram⟩)
      fun _ after => after = memory := by
  obtain ⟨ledger, ram⟩ := memory
  unfold claimFree
  simp only [ensures_bind, ensures_get]
  cases found : ledger.findFree with
  | none => exact ensures_require_none.mpr rfl
  | some pa =>
      obtain ⟨page, rfl, free⟩ := Ledger.findFree_unowned found
      rw [ensures_require_some, allocate]
      rcases ledger.allocate_cases page owner with ⟨unreferenced, allocated⟩ | ⟨cause, denied⟩
      · rw [ensures_onLedger_ok (by rw [allocated]; rfl), ensures_pure]
        exact ⟨page, rfl, congrArg₂ PageInfo.mk free unreferenced, rfl⟩
      · rw [ensures_onLedger_error (by rw [denied]; rfl)]

theorem ensures_allocZeroed_unowned (memory : Memory) (owner : Owner) :
    (allocZeroed owner).Ensures memory
      (fun pa after => ∃ page : Fin pageCount, pa = .ofPage page ∧
        memory.ledger.entry page = .unowned ∧ after = memory.claimed page owner)
      fun _ after => after = memory := by
  unfold allocZeroed
  rw [ensures_bind]
  refine (ensures_claimFree_unowned memory owner).mono ?_ fun _ _ held => held
  rintro _ _ ⟨page, rfl, unowned, rfl⟩
  rw [ensures_bind, ensures_onRam, ensures_of_eq_ok Ram.fill_ofPage, ensures_pure]
  exact ⟨page, rfl, unowned, rfl⟩

end Memory

namespace AddressSpace

open PagingKernel.Action

variable {ledger : Ledger} {ram : Ram} {page : Fin pageCount} {owner : Owner}

/-- A page with a single reference is free again once that is dropped. -/
theorem dropPage_single (single : ledger.entry page = ⟨owner, 1⟩) :
    dropPage (.ofPage page) ⟨ledger, ram⟩ = .ok () ⟨ledger.setEntry page .unowned, ram⟩ := by
  apply eq_ok_of_ensures
  rw [dropPage, ensures_bind, ensures_mapCause, Memory.release,
    Memory.ensures_onLedger_ok (Ledger.release_single single), ensures_pure]
  exact ⟨rfl, rfl⟩

end AddressSpace

end PagingKernel
