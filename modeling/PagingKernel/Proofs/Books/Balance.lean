import Mathlib.Algebra.BigOperators.Group.Finset.Piecewise
import PagingKernel.Process.Table
import PagingKernel.Proofs.AddressSpace.Built
import PagingKernel.Proofs.Ledger.Partition

/-!
# The books

`Books` lists what the ledger is about: the two pages of the kernel's own
directory, and the space of every slot that has one.  The ledger is balanced
against the books if every page is counted once for each reference that the
books know of, on top of what it counted at boot.

The counts alone do not say that a page belongs to one process only.  That
follows from who is charged: the root, the page table and the writable leaves of
a space are charged to its own process, and to nobody else.
-/

namespace PagingKernel

/-- All references to pages that a running kernel keeps. -/
structure Books where
  /-- The page of the kernel's directory. -/
  kernelRoot : Fin pageCount
  /-- The page of the kernel's page table. -/
  kernelTable : Fin pageCount
  /-- The space of each slot that has one of its own. -/
  space : Fin slotCount → Option SpaceView

/-- The pages of a space that are no other's: its root, its page table and its writable leaves. -/
def SpaceView.Private (view : SpaceView) (page : Fin pageCount) : Prop :=
  page = view.root ∨ page = view.table ∨
    ∃ place leaf, view.leaf place = some leaf ∧ leaf.writable = true ∧ leaf.page = page

theorem SpaceView.Private.refs_pos {view : SpaceView} {page : Fin pageCount}
    (isPrivate : view.Private page) : 0 < view.refs page := by
  rw [refs_pos_iff]
  rcases isPrivate with isRoot | isTable | ⟨place, leaf, found, -, same⟩
  · exact .inl isRoot
  · exact .inr (.inl isTable)
  · exact .inr (.inr ⟨place, leaf, found, same⟩)

namespace Books

/-- How often the space of a slot refers to a page. -/
def slotRefs (books : Books) (page : Fin pageCount) (slot : Fin slotCount) : Nat :=
  (books.space slot).elim 0 fun view => view.refs page

/-- How often anything refers to a page. -/
def refs (books : Books) (page : Fin pageCount) : Nat :=
  (if page = books.kernelRoot then 1 else 0) + (if page = books.kernelTable then 1 else 0)
    + ∑ slot, books.slotRefs page slot

/-- The books with another space in a slot. -/
def setSpace (books : Books) (slot : Fin slotCount) (view : SpaceView) : Books :=
  { books with space := Function.update books.space slot (some view) }

variable {books : Books} {slot other : Fin slotCount} {view second : SpaceView}
  {page : Fin pageCount}

@[simp]
theorem setSpace_kernelRoot : (books.setSpace slot view).kernelRoot = books.kernelRoot :=
  rfl

@[simp]
theorem setSpace_kernelTable : (books.setSpace slot view).kernelTable = books.kernelTable :=
  rfl

theorem space_setSpace :
    (books.setSpace slot view).space other =
      if other = slot then some view else books.space other :=
  Function.update_apply ..

@[simp]
theorem space_setSpace_self : (books.setSpace slot view).space slot = some view :=
  Function.update_self ..

theorem slotRefs_of_space (found : books.space slot = some view) :
    books.slotRefs page slot = view.refs page := by
  simp [slotRefs, found]

/-- Putting a space into a slot exchanges its references for those that the slot had. -/
theorem refs_setSpace (books : Books) (slot : Fin slotCount) (view : SpaceView)
    (page : Fin pageCount) :
    (books.setSpace slot view).refs page + books.slotRefs page slot =
      books.refs page + view.refs page := by
  have updated : (books.setSpace slot view).slotRefs page =
      Function.update (books.slotRefs page) slot (view.refs page) := by
    funext other
    by_cases same : other = slot
    · simp [same, slotRefs]
    · rw [Function.update_of_ne same, slotRefs, space_setSpace, if_neg same]
      rfl
  have before := Finset.add_sum_erase Finset.univ (books.slotRefs page) (Finset.mem_univ slot)
  rw [refs, refs, updated, Finset.sum_update_of_mem (Finset.mem_univ slot),
    Finset.sdiff_singleton_eq_erase, setSpace_kernelRoot, setSpace_kernelTable]
  omega

theorem refs_le (found : books.space slot = some view) : view.refs page ≤ books.refs page := by
  have part := Finset.single_le_sum (fun _ _ => Nat.zero_le _) (Finset.mem_univ slot)
    (f := books.slotRefs page)
  rw [slotRefs_of_space found] at part
  rw [refs]
  omega

theorem refs_pos_kernelRoot (books : Books) : 0 < books.refs books.kernelRoot := by
  rw [refs, if_pos rfl]
  omega

theorem refs_pos_kernelTable (books : Books) : 0 < books.refs books.kernelTable := by
  rw [refs, if_pos (show books.kernelTable = books.kernelTable from rfl)]
  omega

/-- Two slots together refer to a page no more often than everything does. -/
theorem refs_add_refs_le (apart : other ≠ slot) (found : books.space slot = some view)
    (foundOther : books.space other = some second) :
    view.refs page + second.refs page ≤ books.refs page := by
  have pair := Finset.sum_le_sum_of_subset (f := books.slotRefs page)
    (Finset.subset_univ {slot, other})
  rw [Finset.sum_pair apart.symm, slotRefs_of_space found, slotRefs_of_space foundOther] at pair
  rw [refs]
  omega

/-- The ledger counts exactly the references of the books, and charges them to whom they belong. -/
structure Balanced (boot : Ledger) (books : Books) (ledger : Ledger) : Prop where
  atBoot : boot.AtBoot
  tidy : ledger.Tidy
  refcount : ∀ page,
    (ledger.entry page).refcount = (boot.entry page).refcount + books.refs page
  bootEntry : ∀ page, boot.Taken page → ledger.entry page = boot.entry page
  kernelRootEntry : ledger.entry books.kernelRoot = ⟨.kernel, 1⟩
  kernelTableEntry : ledger.entry books.kernelTable = ⟨.kernel, 1⟩
  privateEntry : ∀ slot view page, books.space slot = some view → view.Private page →
    ledger.entry page = ⟨.process (.ofIndex slot), 1⟩
  processOwned : ∀ slot view page, books.space slot = some view → 0 < view.refs page →
    ∃ pid, (ledger.entry page).owner = .process pid
  single : ∀ slot view, books.space slot = some view → ∀ page, view.refs page ≤ 1
  living : ∀ page pid, (ledger.entry page).owner = .process pid →
    ∃ (slot : Fin slotCount) (view : SpaceView), pid = .ofIndex slot ∧
      books.space slot = some view

/-! ## What a balanced ledger says of a page -/

namespace Balanced

variable {boot ledger : Ledger}

theorem untaken_iff (balanced : Balanced boot books ledger) :
    ¬ledger.Taken page ↔ ¬boot.Taken page ∧ books.refs page = 0 := by
  have counted := balanced.refcount page
  simp only [Ledger.Taken, not_not]
  omega

theorem taken_of_boot (balanced : Balanced boot books ledger) (taken : boot.Taken page) :
    ledger.Taken page := by
  by_contra untaken
  exact (balanced.untaken_iff.mp untaken).1 taken

theorem taken_of_refs_pos (balanced : Balanced boot books ledger)
    (referenced : 0 < books.refs page) : ledger.Taken page := by
  by_contra untaken
  have none := (balanced.untaken_iff.mp untaken).2
  omega

theorem taken_of_refs (balanced : Balanced boot books ledger) (found : books.space slot = some view)
    (referenced : 0 < view.refs page) : ledger.Taken page :=
  balanced.taken_of_refs_pos (Nat.lt_of_lt_of_le referenced (refs_le found))

theorem slotRefs_of_untaken (balanced : Balanced boot books ledger) (untaken : ¬ledger.Taken page)
    (slot : Fin slotCount) : books.slotRefs page slot = 0 := by
  have none := (balanced.untaken_iff.mp untaken).2
  have part := Finset.single_le_sum (fun _ _ => Nat.zero_le _) (Finset.mem_univ slot)
    (f := books.slotRefs page)
  rw [refs] at none
  omega

theorem kernelRoot_taken (balanced : Balanced boot books ledger) :
    ledger.Taken books.kernelRoot := by
  rw [Ledger.Taken, balanced.kernelRootEntry]
  decide

theorem kernelTable_taken (balanced : Balanced boot books ledger) :
    ledger.Taken books.kernelTable := by
  rw [Ledger.Taken, balanced.kernelTableEntry]
  decide

/-- What was set aside at boot is referred to by nobody. -/
theorem refs_of_boot (balanced : Balanced boot books ledger) (taken : boot.Taken page) :
    books.refs page = 0 := by
  have counted := balanced.refcount page
  rw [balanced.bootEntry page taken] at counted
  omega

/-- What a process refers to is not a page of the kernel's directory. -/
theorem refs_kernelRoot (balanced : Balanced boot books ledger)
    (found : books.space slot = some view) : view.refs books.kernelRoot = 0 := by
  by_contra referenced
  obtain ⟨pid, owned⟩ := balanced.processOwned slot view _ found (Nat.pos_of_ne_zero referenced)
  rw [balanced.kernelRootEntry] at owned
  cases owned

theorem refs_kernelTable (balanced : Balanced boot books ledger)
    (found : books.space slot = some view) : view.refs books.kernelTable = 0 := by
  by_contra referenced
  obtain ⟨pid, owned⟩ := balanced.processOwned slot view _ found (Nat.pos_of_ne_zero referenced)
  rw [balanced.kernelTableEntry] at owned
  cases owned

/-- The directory of the kernel lies on two pages. -/
theorem kernelTable_ne_kernelRoot (balanced : Balanced boot books ledger) :
    books.kernelTable ≠ books.kernelRoot := by
  intro same
  have counted := balanced.refcount books.kernelRoot
  rw [balanced.kernelRootEntry, refs, if_pos rfl, if_pos same.symm] at counted
  dsimp only at counted
  omega

/-- A page that a process refers to has at most one reference from each slot. -/
theorem refcount_le (balanced : Balanced boot books ledger) (found : books.space slot = some view)
    (referenced : 0 < view.refs page) : (ledger.entry page).refcount ≤ slotCount := by
  have notBoot : (boot.entry page).refcount = 0 := by
    by_contra taken
    have part : view.refs page ≤ books.refs page := refs_le found
    rw [balanced.refs_of_boot taken] at part
    omega
  have notRoot : page ≠ books.kernelRoot := by
    rintro rfl
    exact absurd (balanced.refs_kernelRoot found) (Nat.ne_of_gt referenced)
  have notTable : page ≠ books.kernelTable := by
    rintro rfl
    exact absurd (balanced.refs_kernelTable found) (Nat.ne_of_gt referenced)
  have once (slot : Fin slotCount) : books.slotRefs page slot ≤ 1 := by
    cases has : books.space slot with
    | none => simp [slotRefs, has]
    | some view =>
        rw [slotRefs_of_space has]
        exact balanced.single slot view has page
  have total : ∑ slot, books.slotRefs page slot ≤ slotCount := by
    simpa using Finset.sum_le_card_nsmul Finset.univ (books.slotRefs page) 1 fun slot _ => once slot
  rw [balanced.refcount page, notBoot, refs, if_neg notRoot, if_neg notTable]
  omega

/-- A private page of one space has no other reference at all. -/
theorem refs_eq_one (balanced : Balanced boot books ledger) (found : books.space slot = some view)
    (isPrivate : view.Private page) : (boot.entry page).refcount = 0 ∧ books.refs page = 1 := by
  have counted := balanced.refcount page
  have part : view.refs page ≤ books.refs page := refs_le found
  have positive := isPrivate.refs_pos
  rw [balanced.privateEntry slot view page found isPrivate] at counted
  dsimp only at counted
  omega

theorem refs_other_eq_zero (balanced : Balanced boot books ledger) (apart : other ≠ slot)
    (found : books.space slot = some view) (isPrivate : view.Private page)
    (foundOther : books.space other = some second) : second.refs page = 0 := by
  have both : view.refs page + second.refs page ≤ books.refs page :=
    refs_add_refs_le apart found foundOther
  have alone := (balanced.refs_eq_one found isPrivate).2
  have positive := isPrivate.refs_pos
  omega

/-- No process maps a private page of a space for reading. -/
theorem private_not_readOnly (balanced : Balanced boot books ledger)
    (found : books.space slot = some view) (isPrivate : view.Private page)
    (foundOther : books.space other = some second) (place : Fin processPageCount) :
    second.leaf place ≠ some ⟨page, false⟩ := by
  intro shared
  have referenced : 0 < second.refs page := SpaceView.refs_leaf_pos shared
  by_cases same : other = slot
  · subst same
    obtain rfl := Option.some.inj (found.symm.trans foundOther)
    have single := balanced.single other view found
    rcases isPrivate with rfl | rfl | ⟨there, leaf, mapped, writable, rfl⟩
    · exact SpaceView.leaf_page_ne_root (single _) shared rfl
    · exact SpaceView.leaf_page_ne_table (single _) shared rfl
    · obtain rfl := SpaceView.place_unique (single _) mapped shared rfl
      rw [Option.some.inj (mapped.symm.trans shared)] at writable
      cases writable
  · have none := balanced.refs_other_eq_zero same found isPrivate foundOther
    omega

end Balanced

/-! ## Pages that hold directories -/

/-- A page holds a directory or a page table that the books list. -/
def Structural (books : Books) (page : Fin pageCount) : Prop :=
  page = books.kernelRoot ∨ page = books.kernelTable ∨
    ∃ slot view, books.space slot = some view ∧ (page = view.root ∨ page = view.table)

theorem Structural.refs_pos (structural : books.Structural page) : 0 < books.refs page := by
  rcases structural with rfl | rfl | ⟨slot, view, found, rfl | rfl⟩
  · exact books.refs_pos_kernelRoot
  · exact books.refs_pos_kernelTable
  · exact Nat.lt_of_lt_of_le view.refs_root_pos (refs_le found)
  · exact Nat.lt_of_lt_of_le view.refs_table_pos (refs_le found)

namespace Balanced

theorem taken_of_structural (balanced : Balanced boot books ledger)
    (structural : books.Structural page) : ledger.Taken page :=
  balanced.taken_of_refs_pos structural.refs_pos

theorem refcount_structural (balanced : Balanced boot books ledger)
    (structural : books.Structural page) : (ledger.entry page).refcount = 1 := by
  rcases structural with rfl | rfl | ⟨slot, view, found, isRoot | isTable⟩
  · rw [balanced.kernelRootEntry]
  · rw [balanced.kernelTableEntry]
  · rw [balanced.privateEntry slot view page found (.inl isRoot)]
  · rw [balanced.privateEntry slot view page found (.inr (.inl isTable))]

/-- No process maps a directory or a page table. -/
theorem leaf_not_structural (balanced : Balanced boot books ledger)
    (found : books.space slot = some view) {place : Fin processPageCount} {leaf : Leaf}
    (mapped : view.leaf place = some leaf) : ¬books.Structural leaf.page := by
  have referenced := SpaceView.refs_leaf_pos mapped
  rintro (isRoot | isTable | ⟨other, second, foundOther, held⟩)
  · rw [isRoot, balanced.refs_kernelRoot found] at referenced
    exact Nat.lt_irrefl 0 referenced
  · rw [isTable, balanced.refs_kernelTable found] at referenced
    exact Nat.lt_irrefl 0 referenced
  · by_cases same : slot = other
    · subst same
      obtain rfl := Option.some.inj (found.symm.trans foundOther)
      have single := balanced.single slot view found
      rcases held with isRoot | isTable
      · exact SpaceView.leaf_page_ne_root (single _) mapped isRoot
      · exact SpaceView.leaf_page_ne_table (single _) mapped isTable
    · have isPrivate : second.Private leaf.page := by
        rcases held with isRoot | isTable
        · exact .inl isRoot
        · exact .inr (.inl isTable)
      have none := balanced.refs_other_eq_zero same foundOther isPrivate found
      omega

end Balanced

/-! ## Pages that belong elsewhere -/

/-- A page is referred to by the kernel's own space or by that of a slot other than `slot`. -/
def BelongsElsewhere (books : Books) (slot : Fin slotCount) (page : Fin pageCount) : Prop :=
  page = books.kernelRoot ∨ page = books.kernelTable ∨
    ∃ other view, other ≠ slot ∧ books.space other = some view ∧ 0 < view.refs page

namespace BelongsElsewhere

theorem refs_pos (elsewhere : books.BelongsElsewhere slot page) : 0 < books.refs page := by
  rcases elsewhere with rfl | rfl | ⟨other, view, -, found, referenced⟩
  · exact books.refs_pos_kernelRoot
  · exact books.refs_pos_kernelTable
  · exact Nat.lt_of_lt_of_le referenced (refs_le found)

theorem taken (elsewhere : books.BelongsElsewhere slot page)
    (balanced : books.Balanced boot ledger) : ledger.Taken page :=
  balanced.taken_of_refs_pos elsewhere.refs_pos

theorem not_private (elsewhere : books.BelongsElsewhere slot page)
    (balanced : books.Balanced boot ledger) (found : books.space slot = some view) :
    ¬view.Private page := by
  intro isPrivate
  have referenced := isPrivate.refs_pos
  rcases elsewhere with rfl | rfl | ⟨other, second, apart, foundOther, alsoReferenced⟩
  · have none := balanced.refs_kernelRoot found
    omega
  · have none := balanced.refs_kernelTable found
    omega
  · have none := balanced.refs_other_eq_zero apart found isPrivate foundOther
    omega

end BelongsElsewhere

end Books

end PagingKernel
