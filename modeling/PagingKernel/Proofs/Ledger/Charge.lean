import Mathlib.Algebra.Group.Pi.Basic
import Mathlib.Algebra.GroupWithZero.Nat
import Mathlib.Algebra.Notation.Pi.Basic
import Mathlib.Data.Fintype.Card
import PagingKernel.Ledger

/-!
# Charging references to a ledger

Whatever is built takes references to pages, and taking it apart gives them
back.  `Ledger.charge ledger owner count` is the ledger with `count page` more
references to every page, where pages that were free now belong to `owner`.

Charges add up (`charge_charge`), each operation that takes a reference is a
charge of one, and `release_charge` undoes a charge of one.  So a ledger that
was charged and then relieved of the same references is the ledger from before,
entry by entry.
-/

namespace PagingKernel

/-- An entry with `extra` more references, of which `owner` holds the first if there was none. -/
def PageInfo.charge (info : PageInfo) (owner : Owner) (extra : Nat) : PageInfo where
  owner := if info.refcount = 0 ∧ 0 < extra then owner else info.owner
  refcount := info.refcount + extra

@[simp]
theorem PageInfo.charge_zero (info : PageInfo) (owner : Owner) : info.charge owner 0 = info := by
  simp [charge]

theorem PageInfo.charge_charge (info : PageInfo) (owner : Owner) (early late : Nat) :
    (info.charge owner early).charge owner late = info.charge owner (early + late) := by
  have owner_eq : ((info.charge owner early).charge owner late).owner =
      (info.charge owner (early + late)).owner := by
    by_cases unreferenced : info.refcount = 0
    · by_cases charged : 0 < early
      · have both : 0 < early + late := by omega
        rw [charge, charge, charge]
        simp only [unreferenced, charged, both, Nat.zero_add, and_self, if_true, ite_self]
      · obtain rfl : early = 0 := by omega
        simp [charge, unreferenced]
    · simp [charge, unreferenced]
  have refcount_eq : ((info.charge owner early).charge owner late).refcount =
      (info.charge owner (early + late)).refcount := by
    simp [charge, Nat.add_assoc]
  exact congrArg₂ PageInfo.mk owner_eq refcount_eq

namespace Ledger

/-- There are references to a page. -/
def Taken (ledger : Ledger) (page : Fin pageCount) : Prop :=
  (ledger.entry page).refcount ≠ 0

instance (ledger : Ledger) (page : Fin pageCount) : Decidable (ledger.Taken page) :=
  inferInstanceAs (Decidable (_ ≠ _))

/-- Exactly the pages without references have no owner. -/
def Tidy (ledger : Ledger) : Prop :=
  ∀ page, (ledger.entry page).owner = .free ↔ ¬ledger.Taken page

/-- A ledger with `count page` more references to every page. -/
def charge (ledger : Ledger) (owner : Owner) (count : Fin pageCount → Nat) : Ledger :=
  ⟨Vector.ofFn fun page => (ledger.entry page).charge owner (count page)⟩

variable {ledger : Ledger} {owner : Owner} {page : Fin pageCount}

@[simp]
theorem entry_charge (ledger : Ledger) (owner : Owner) (count : Fin pageCount → Nat)
    (page : Fin pageCount) :
    (ledger.charge owner count).entry page = (ledger.entry page).charge owner (count page) := by
  simp [charge, entry]

@[simp]
theorem charge_zero (ledger : Ledger) (owner : Owner) : ledger.charge owner 0 = ledger := by
  apply ext_entry
  intro page
  simp

theorem charge_charge (ledger : Ledger) (owner : Owner) (early late : Fin pageCount → Nat) :
    (ledger.charge owner early).charge owner late = ledger.charge owner (early + late) := by
  apply ext_entry
  intro page
  simp [PageInfo.charge_charge]

theorem taken_charge_iff {count : Fin pageCount → Nat} :
    (ledger.charge owner count).Taken page ↔ ledger.Taken page ∨ 0 < count page := by
  simp only [Taken, entry_charge, PageInfo.charge]
  omega

/-- Charging keeps a page taken. -/
theorem Taken.charge (taken : ledger.Taken page) (owner : Owner) (count : Fin pageCount → Nat) :
    (ledger.charge owner count).Taken page :=
  taken_charge_iff.mpr (.inl taken)

theorem taken_charge_single (ledger : Ledger) (owner : Owner) (page : Fin pageCount) :
    (ledger.charge owner (Pi.single page 1)).Taken page :=
  taken_charge_iff.mpr (.inr (by simp))

/-- Charging a single page charges no other. -/
theorem eq_of_charged_single {held : Fin pageCount} {count : Nat}
    (charged : 0 < (Pi.single held count : Fin pageCount → Nat) page) : page = held := by
  by_contra apart
  rw [Pi.single_eq_of_ne apart] at charged
  exact Nat.lt_irrefl 0 charged

/-- A page that is free once another was charged is another page, and was free before. -/
theorem apart_of_untaken_charge {first second : Fin pageCount}
    (untaken : ¬(ledger.charge owner (Pi.single first 1)).Taken second) :
    first ≠ second ∧ ¬ledger.Taken second := by
  constructor
  · rintro rfl
    exact untaken (taken_charge_single ledger owner first)
  · exact fun taken => untaken (taken.charge _ _)

theorem Tidy.charge (tidy : ledger.Tidy) (owned : owner ≠ .free) (count : Fin pageCount → Nat) :
    (ledger.charge owner count).Tidy := by
  intro page
  rw [taken_charge_iff, entry_charge, PageInfo.charge]
  have before := tidy page
  by_cases unreferenced : (ledger.entry page).refcount = 0
  · have free := before.mpr (by simp [Taken, unreferenced])
    by_cases charged : 0 < count page
    · simp [unreferenced, charged, owned]
    · simp [charged, free, Taken, unreferenced]
  · simp only [unreferenced, false_and, if_false, before, Taken, ne_eq, not_false_eq_true,
      true_or]

/-- A page that was not taken is charged anew. -/
theorem entry_charge_of_untaken (untaken : ¬ledger.Taken page) (owner : Owner)
    {count : Fin pageCount → Nat} (once : count page = 1) :
    (ledger.charge owner count).entry page = ⟨owner, 1⟩ := by
  have unreferenced : (ledger.entry page).refcount = 0 := not_not.mp untaken
  rw [entry_charge, once, PageInfo.charge, unreferenced]
  simp

theorem taken_of_entry (single : ledger.entry page = ⟨owner, 1⟩) : ledger.Taken page := by
  rw [Taken, single]
  exact Nat.one_ne_zero

/-- A page that was taken keeps its owner. -/
theorem owner_charge_of_taken (taken : ledger.Taken page) (owner : Owner)
    (count : Fin pageCount → Nat) :
    ((ledger.charge owner count).entry page).owner = (ledger.entry page).owner := by
  have referenced : (ledger.entry page).refcount ≠ 0 := taken
  simp [PageInfo.charge, referenced]

/-! ## Charging pages that are taken already -/

section Held

variable {count : Fin pageCount → Nat}

theorem taken_charge_of_taken (held : ∀ page, 0 < count page → ledger.Taken page)
    (page : Fin pageCount) : (ledger.charge owner count).Taken page ↔ ledger.Taken page := by
  rw [taken_charge_iff]
  exact or_iff_left_of_imp (held page)

/-- References to taken pages may be charged before or after others. -/
theorem charge_comm (held : ∀ page, 0 < count page → ledger.Taken page) (owner other : Owner)
    (later : Fin pageCount → Nat) :
    (ledger.charge owner count).charge other later =
      (ledger.charge other later).charge owner count := by
  apply ext_entry
  intro page
  by_cases charged : 0 < count page
  · have referenced : (ledger.entry page).refcount ≠ 0 := held page charged
    simp [PageInfo.charge, referenced, Nat.add_right_comm]
  · have none : count page = 0 := by omega
    simp [none]

end Held

/-! ## Free pages -/

/-- The first entry that is accepted is accepted, and none before it is. -/
theorem findFinIdx?_eq_some_iff {α : Type} {n : Nat} {entries : Vector α n}
    {accepts : α → Bool} {found : Fin n} :
    entries.findFinIdx? accepts = some found ↔
      accepts entries[found] = true ∧ ∀ lower < found, accepts entries[lower] = false := by
  rcases entries with ⟨entries, rfl⟩
  simp [Array.findFinIdx?_eq_some_iff]

theorem findFree_eq (ledger : Ledger) :
    ledger.findFree =
      (ledger.pages.findFinIdx? (·.owner = .free)).map fun page => .ofPage page.val := by
  unfold findFree
  cases ledger.pages.findFinIdx? (·.owner = .free) <;> rfl

/-- The page that is found is the lowest one without references. -/
theorem findFree_eq_some_iff (tidy : ledger.Tidy) {pa : PhysAddr} :
    ledger.findFree = some pa ↔ ∃ page : Fin pageCount, pa = .ofPage page ∧
      ¬ledger.Taken page ∧ ∀ lower < page, ledger.Taken lower := by
  have accepts (page : Fin pageCount) :
      decide (ledger.pages[page].owner = .free) = true ↔ ¬ledger.Taken page :=
    decide_eq_true_iff.trans (tidy page)
  simp only [findFree_eq, Option.map_eq_some_iff, findFinIdx?_eq_some_iff, accepts,
    ← Bool.not_eq_true, not_not]
  constructor
  · rintro ⟨page, found, rfl⟩
    exact ⟨page, rfl, found⟩
  · rintro ⟨page, rfl, found⟩
    exact ⟨page, found, rfl⟩

theorem findFree_eq_some (tidy : ledger.Tidy) {pa : PhysAddr} (found : ledger.findFree = some pa) :
    ∃ page : Fin pageCount, pa = .ofPage page ∧ ¬ledger.Taken page ∧
      ∀ lower < page, ledger.Taken lower :=
  (findFree_eq_some_iff tidy).mp found

theorem findFree_eq_none_iff (tidy : ledger.Tidy) :
    ledger.findFree = none ↔ ∀ page, ledger.Taken page := by
  rw [findFree_eq, Option.map_eq_none_iff, Vector.findFinIdx?_eq_none_iff]
  constructor
  · intro owned page
    by_contra untaken
    have free := (tidy page).mpr untaken
    exact owned (ledger.entry page) (Vector.getElem_mem page.isLt) (decide_eq_true free)
  · intro taken info member free
    obtain ⟨number, bound, rfl⟩ := Vector.getElem_of_mem member
    exact (tidy ⟨number, bound⟩).mp (of_decide_eq_true free) (taken _)

/-- Which page is free first is a matter of which pages are taken. -/
theorem findFree_congr {other : Ledger} (tidy : ledger.Tidy) (otherTidy : other.Tidy)
    (same : ∀ page, ledger.Taken page ↔ other.Taken page) : ledger.findFree = other.findFree := by
  cases found : ledger.findFree with
  | none =>
      have taken := (findFree_eq_none_iff tidy).mp found
      exact ((findFree_eq_none_iff otherTidy).mpr fun page => (same page).mp (taken page)).symm
  | some pa =>
      obtain ⟨page, rfl, untaken, lowest⟩ := findFree_eq_some tidy found
      cases foundOther : other.findFree with
      | none =>
          have taken := (findFree_eq_none_iff otherTidy).mp foundOther
          exact absurd ((same page).mpr (taken page)) untaken
      | some pa =>
          obtain ⟨second, rfl, alsoUntaken, alsoLowest⟩ := findFree_eq_some otherTidy foundOther
          obtain lower | rfl | higher := lt_trichotomy page second
          · exact absurd ((same page).mpr (alsoLowest page lower)) untaken
          · rfl
          · exact absurd ((same second).mp (lowest second higher)) alsoUntaken

theorem freePages_eq_card (ledger : Ledger) :
    ledger.freePages = (Finset.univ.filter fun page => ¬ledger.Taken page).card := by
  have listed : ledger.pages.toList = (List.finRange pageCount).map ledger.entry := by
    apply List.ext_getElem
    · simp
    · intro number inside _
      simp [entry]
  rw [freePages, ← Vector.countP_toList, listed, List.countP_map, Finset.card_def,
    Finset.filter_val, ← Multiset.countP_eq_card_filter]
  refine List.countP_congr fun page _ => ?_
  simp [PageInfo.isFree, Taken]

/-- Charging uses up the free pages that it gives references to, and no others. -/
theorem freePages_charge (ledger : Ledger) (owner : Owner) (count : Fin pageCount → Nat) :
    (ledger.charge owner count).freePages +
        (Finset.univ.filter fun page => ¬ledger.Taken page ∧ 0 < count page).card =
      ledger.freePages := by
  rw [freePages_eq_card, freePages_eq_card, ← Finset.card_union_of_disjoint]
  · refine congrArg Finset.card (Finset.ext fun page => ?_)
    simp only [Finset.mem_union, Finset.mem_filter, Finset.mem_univ, true_and, taken_charge_iff]
    by_cases taken : ledger.Taken page
    · simp [taken]
    · by_cases charged : 0 < count page <;> simp [taken, charged]
  · rw [Finset.disjoint_left]
    intro page still new
    simp only [Finset.mem_filter, Finset.mem_univ, true_and, taken_charge_iff] at still new
    exact still (.inr new.2)

/-- A page is new after a charge if it was free and charged for. -/
theorem new_charge_iff {count : Fin pageCount → Nat} :
    ¬ledger.Taken page ∧ (ledger.charge owner count).Taken page ↔
      ¬ledger.Taken page ∧ 0 < count page := by
  rw [taken_charge_iff]
  tauto

theorem freePages_charge_single (untaken : ¬ledger.Taken page) (owner : Owner) :
    (ledger.charge owner (Pi.single page 1)).freePages + 1 = ledger.freePages := by
  have used : (Finset.univ.filter fun other =>
      ¬ledger.Taken other ∧ 0 < (Pi.single page 1 : Fin pageCount → Nat) other).card = 1 := by
    refine Finset.card_eq_one.mpr ⟨page, Finset.ext fun other => ?_⟩
    by_cases same : other = page
    · simp [same, untaken]
    · simp [same]
  rw [← freePages_charge ledger owner (Pi.single page 1), used]

theorem freePages_eq_zero_iff : ledger.freePages = 0 ↔ ∀ page, ledger.Taken page := by
  rw [freePages_eq_card, Finset.card_eq_zero, Finset.filter_eq_empty_iff]
  simp

theorem freePages_eq_zero_of_findFree (tidy : ledger.Tidy) (none : ledger.findFree = none) :
    ledger.freePages = 0 :=
  freePages_eq_zero_iff.mpr ((findFree_eq_none_iff tidy).mp none)

/-! ## Single references -/

theorem setEntry_eq_charge {info : PageInfo} (count : Nat)
    (charged : info = (ledger.entry page).charge owner count) :
    ledger.setEntry page info = ledger.charge owner (Pi.single page count) := by
  apply ext_entry
  intro other
  rw [entry_setEntry, entry_charge]
  by_cases same : other = page
  · rw [if_pos same, same, Pi.single_eq_same, charged]
  · rw [if_neg same, Pi.single_eq_of_ne same, PageInfo.charge_zero]

theorem pageNumber_ofPage (page : Fin pageCount) : pageNumber (.ofPage page) = .ok page :=
  pageNumber_eq_ok_iff.mpr rfl

/-- Allocating a free page charges it with one reference. -/
theorem allocate_eq_ok (untaken : ¬ledger.Taken page) (owned : owner ≠ .free) :
    ledger.allocate (.ofPage page) owner = .ok (ledger.charge owner (Pi.single page 1)) := by
  have unreferenced : (ledger.entry page).refcount = 0 := not_not.mp untaken
  have charged : (⟨owner, 1⟩ : PageInfo) = (ledger.entry page).charge owner 1 := by
    simp [PageInfo.charge, unreferenced]
  simp only [allocate, pageNumber_ofPage, bind, Except.bind, owned, if_false, unreferenced, ne_eq,
    not_true_eq_false, setEntry_eq_charge 1 charged]
  rfl

/-- Sharing a page charges it with one more reference, whoever is charged. -/
theorem share_eq_ok (taken : ledger.Taken page)
    (room : (ledger.entry page).refcount < refcountLimit) (owner : Owner) :
    ledger.share (.ofPage page) =
      .ok ((ledger.entry page).refcount + 1, ledger.charge owner (Pi.single page 1)) := by
  have referenced : (ledger.entry page).refcount ≠ 0 := taken
  have charged : ({ ledger.entry page with refcount := (ledger.entry page).refcount + 1 } :
      PageInfo) = (ledger.entry page).charge owner 1 := by
    simp [PageInfo.charge, referenced]
  simp only [share, pageNumber_ofPage, bind, Except.bind, referenced, if_false,
    Nat.not_le.mpr room, setEntry_eq_charge 1 charged]
  rfl

theorem share_eq_error (taken : ledger.Taken page)
    (full : refcountLimit ≤ (ledger.entry page).refcount) :
    ledger.share (.ofPage page) = .error .refcountOverflow := by
  have referenced : (ledger.entry page).refcount ≠ 0 := taken
  simp only [share, pageNumber_ofPage, bind, Except.bind, referenced, if_false, full, if_true]
  rfl

/-- Releasing a page undoes a charge of one reference. -/
theorem release_charge (tidy : ledger.Tidy) (rest : Fin pageCount → Nat) :
    (ledger.charge owner (rest + Pi.single page 1)).release (.ofPage page) =
      .ok ((ledger.entry page).refcount + rest page, ledger.charge owner rest) := by
  have before : (ledger.charge owner (rest + Pi.single page 1)).entry page =
      (ledger.entry page).charge owner (rest page + 1) := by
    simp
  have restored : ∀ info, info = (ledger.entry page).charge owner (rest page) →
      (ledger.charge owner (rest + Pi.single page 1)).setEntry page info =
        ledger.charge owner rest := by
    rintro info rfl
    apply ext_entry
    intro other
    rw [entry_setEntry, entry_charge, entry_charge]
    by_cases same : other = page
    · rw [if_pos same, same]
    · rw [if_neg same, Pi.add_apply, Pi.single_eq_of_ne same, Nat.add_zero]
  have owner_eq : (if (ledger.entry page).refcount + rest page = 0 then Owner.free
      else ((ledger.entry page).charge owner (rest page + 1)).owner) =
        ((ledger.entry page).charge owner (rest page)).owner := by
    by_cases unreferenced : (ledger.entry page).refcount = 0
    · have free := (tidy page).mpr (not_not.mpr unreferenced)
      by_cases last : rest page = 0
      · simp [PageInfo.charge, unreferenced, last, free]
      · have more : 0 < rest page := Nat.pos_of_ne_zero last
        simp [PageInfo.charge, unreferenced, last, more]
    · simp [PageInfo.charge, unreferenced]
  have refcount_eq : ((ledger.entry page).charge owner (rest page + 1)).refcount - 1 =
      (ledger.entry page).refcount + rest page := by
    simp only [PageInfo.charge]
    omega
  have referenced : ((ledger.entry page).charge owner (rest page + 1)).refcount ≠ 0 := by
    simp only [PageInfo.charge]
    omega
  simp only [release, pageNumber_ofPage, bind, Except.bind, before, referenced, if_false,
    refcount_eq, owner_eq]
  exact congrArg (fun ledger => Except.ok (_, ledger)) (restored _ rfl)

end Ledger

end PagingKernel
