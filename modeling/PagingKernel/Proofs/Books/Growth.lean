import PagingKernel.Proofs.Books.Balance

/-!
# Keeping the books balanced

A slot of the process table grows by taking references: to pages that nobody
had, and to pages that some process maps for reading and the slot maps for
reading as well.  `Growth` collects what such a step has to respect, and
`Balanced.grow` shows that this is enough.  A new space and a new page in a
space are the two ways in which slots grow.
-/

namespace PagingKernel.Books

variable {books : Books} {slot other : Fin slotCount} {view : SpaceView}
  {page : Fin pageCount} {boot ledger : Ledger}

namespace Balanced

/-- A slot takes references to untaken pages, and to pages that a process maps for reading. -/
structure Growth (books : Books) (ledger : Ledger) (slot : Fin slotCount) (next : SpaceView)
    (extra : Fin pageCount → Nat) : Prop where
  counted : ∀ page, next.refs page = books.slotRefs page slot + extra page
  single : ∀ page, next.refs page ≤ 1
  shared : ∀ page, ledger.Taken page → 0 < extra page → ∃ other second place,
    books.space other = some second ∧ second.leaf place = some ⟨page, false⟩
  privateNew : ∀ page, next.Private page → ¬ledger.Taken page ∨
    ∃ view, books.space slot = some view ∧ view.Private page

variable {next : SpaceView} {extra : Fin pageCount → Nat}

/-- Only what belongs to a process gains a reference, if it was taken. -/
theorem Growth.owner_of_taken (growth : Growth books ledger slot next extra)
    (balanced : Balanced boot books ledger) (taken : ledger.Taken page)
    (charged : 0 < extra page) : ∃ pid, (ledger.entry page).owner = .process pid := by
  obtain ⟨other, second, place, foundOther, mapped⟩ := growth.shared page taken charged
  exact balanced.processOwned other second page foundOther (SpaceView.refs_leaf_pos mapped)

theorem Growth.entry_of_owner (growth : Growth books ledger slot next extra)
    (balanced : Balanced boot books ledger) (taken : ledger.Taken page)
    (notProcess : ∀ pid, (ledger.entry page).owner ≠ .process pid) :
    (ledger.charge (.process (.ofIndex slot)) extra).entry page = ledger.entry page := by
  have uncharged : extra page = 0 := by
    by_contra charged
    obtain ⟨pid, owned⟩ := growth.owner_of_taken balanced taken (Nat.pos_of_ne_zero charged)
    exact notProcess pid owned
  rw [Ledger.entry_charge, uncharged, PageInfo.charge_zero]

/-- Private pages of the slot that grows are charged to it. -/
theorem Growth.privateEntry_self (growth : Growth books ledger slot next extra)
    (balanced : Balanced boot books ledger) (isPrivate : next.Private page) :
    (ledger.charge (.process (.ofIndex slot)) extra).entry page =
      ⟨.process (.ofIndex slot), 1⟩ := by
  have counted := growth.counted page
  have single := growth.single page
  have referenced := isPrivate.refs_pos
  rcases growth.privateNew page isPrivate with untaken | ⟨view, found, wasPrivate⟩
  · have unreferenced := balanced.slotRefs_of_untaken untaken slot
    exact Ledger.entry_charge_of_untaken untaken _ (by omega)
  · have before := wasPrivate.refs_pos
    rw [slotRefs_of_space found] at counted
    have uncharged : extra page = 0 := by omega
    rw [Ledger.entry_charge, uncharged, PageInfo.charge_zero]
    exact balanced.privateEntry slot view page found wasPrivate

theorem Growth.privateEntry_other (growth : Growth books ledger slot next extra)
    (balanced : Balanced boot books ledger) (found : books.space other = some view)
    (isPrivate : view.Private page) :
    (ledger.charge (.process (.ofIndex slot)) extra).entry page =
      ⟨.process (.ofIndex other), 1⟩ := by
  have taken := balanced.taken_of_refs found isPrivate.refs_pos
  have uncharged : extra page = 0 := by
    by_contra charged
    obtain ⟨third, shared, place, foundThird, mapped⟩ :=
      growth.shared page taken (Nat.pos_of_ne_zero charged)
    exact balanced.private_not_readOnly found isPrivate foundThird place mapped
  rw [Ledger.entry_charge, uncharged, PageInfo.charge_zero]
  exact balanced.privateEntry other view page found isPrivate

/-- Whatever a slot refers to after growing belongs to a process. -/
theorem Growth.processOwned_self (growth : Growth books ledger slot next extra)
    (balanced : Balanced boot books ledger) (referenced : 0 < next.refs page) :
    ∃ pid, ((ledger.charge (.process (.ofIndex slot)) extra).entry page).owner = .process pid := by
  have counted := growth.counted page
  by_cases taken : ledger.Taken page
  · rw [Ledger.owner_charge_of_taken taken]
    by_cases charged : 0 < extra page
    · exact growth.owner_of_taken balanced taken charged
    · cases found : books.space slot with
      | none =>
          rw [slotRefs, found, Option.elim_none] at counted
          omega
      | some view =>
          rw [slotRefs_of_space found] at counted
          exact balanced.processOwned slot view page found (by omega)
  · have unreferenced := balanced.slotRefs_of_untaken taken slot
    have single := growth.single page
    exact ⟨_, congrArg PageInfo.owner (Ledger.entry_charge_of_untaken taken _ (by omega))⟩

/-- Whoever is charged after a slot has grown has a space. -/
theorem Growth.living (growth : Growth books ledger slot next extra)
    (balanced : Balanced boot books ledger) {pid : Pid}
    (owned : ((ledger.charge (.process (.ofIndex slot)) extra).entry page).owner = .process pid) :
    ∃ (other : Fin slotCount) (view : SpaceView), pid = .ofIndex other ∧
      (books.setSpace slot next).space other = some view := by
  by_cases taken : ledger.Taken page
  · rw [Ledger.owner_charge_of_taken taken] at owned
    obtain ⟨other, view, rfl, found⟩ := balanced.living page pid owned
    by_cases same : other = slot
    · exact ⟨other, next, rfl, same ▸ space_setSpace_self⟩
    · exact ⟨other, view, rfl, by rw [space_setSpace, if_neg same, found]⟩
  · have counted := growth.counted page
    have single := growth.single page
    by_cases charged : 0 < extra page
    · rw [Ledger.entry_charge_of_untaken taken _ (show extra page = 1 by omega)] at owned
      cases owned
      exact ⟨slot, next, rfl, space_setSpace_self⟩
    · rw [Ledger.entry_charge, show extra page = 0 by omega, PageInfo.charge_zero,
        (balanced.tidy page).mpr taken] at owned
      cases owned

theorem grow (balanced : Balanced boot books ledger)
    (growth : Growth books ledger slot next extra) :
    Balanced boot (books.setSpace slot next)
      (ledger.charge (.process (.ofIndex slot)) extra) where
  atBoot := balanced.atBoot
  tidy := balanced.tidy.charge (by simp) extra
  refcount page := by
    have exchanged := refs_setSpace books slot next page
    have counted := growth.counted page
    have before := balanced.refcount page
    rw [Ledger.entry_charge]
    simp only [PageInfo.charge]
    omega
  bootEntry page taken := by
    rw [← balanced.bootEntry page taken]
    refine growth.entry_of_owner balanced (balanced.taken_of_boot taken) fun pid => ?_
    rw [balanced.bootEntry page taken]
    exact balanced.atBoot.owner_ne_process page pid
  kernelRootEntry := by
    have entry := balanced.kernelRootEntry
    rw [setSpace_kernelRoot, growth.entry_of_owner balanced balanced.kernelRoot_taken, entry]
    simp [entry]
  kernelTableEntry := by
    have entry := balanced.kernelTableEntry
    rw [setSpace_kernelTable, growth.entry_of_owner balanced balanced.kernelTable_taken, entry]
    simp [entry]
  privateEntry other view page found isPrivate := by
    rw [space_setSpace] at found
    split at found
    · rename_i same
      obtain rfl := Option.some.inj found
      rw [same]
      exact growth.privateEntry_self balanced isPrivate
    · exact growth.privateEntry_other balanced found isPrivate
  processOwned other view page found referenced := by
    rw [space_setSpace] at found
    split at found
    · obtain rfl := Option.some.inj found
      exact growth.processOwned_self balanced referenced
    · rw [Ledger.owner_charge_of_taken (balanced.taken_of_refs found referenced)]
      exact balanced.processOwned other view page found referenced
  single other view found := by
    rw [space_setSpace] at found
    split at found
    · obtain rfl := Option.some.inj found
      exact growth.single
    · exact balanced.single other view found
  living page pid owned := growth.living balanced owned

/-! ## The ways of growing -/

/-- A slot without a space is given one that was built out of free pages. -/
theorem addSpace (balanced : Balanced boot books ledger) (vacant : books.space slot = none)
    {before ram : Ram} {child : SpaceView} (built : Built ledger before child ram)
    (single : ∀ page, child.refs page ≤ 1)
    (shared : ∀ page, ledger.Taken page → 0 < child.refs page → ∃ other second place,
      books.space other = some second ∧ second.leaf place = some ⟨page, false⟩) :
    Balanced boot (books.setSpace slot child)
      (ledger.charge (.process (.ofIndex slot)) child.refs) := by
  refine balanced.grow ⟨fun page => ?_, single, shared, fun page isPrivate => .inl ?_⟩
  · rw [slotRefs, vacant, Option.elim_none, Nat.zero_add]
  · rcases isPrivate with rfl | rfl | ⟨place, leaf, mapped, writable, rfl⟩
    · exact built.rootNew
    · exact built.tableNew
    · exact built.openedNew place leaf mapped writable

/-- A slot maps a new page where its space mapped nothing. -/
theorem addLeaf (balanced : Balanced boot books ledger) (found : books.space slot = some view)
    {place : Fin processPageCount} (vacant : view.leaf place = none)
    (untaken : ¬ledger.Taken page) :
    Balanced boot (books.setSpace slot (view.setLeaf place ⟨page, true⟩))
      (ledger.charge (.process (.ofIndex slot)) (Pi.single page 1)) := by
  have counted (other : Fin pageCount) : (view.setLeaf place ⟨page, true⟩).refs other =
      view.refs other + (Pi.single page 1 : Fin pageCount → Nat) other := by
    rw [SpaceView.refs_setLeaf vacant, Pi.add_apply]
  have unreferenced : view.refs page = 0 := by
    have none := balanced.slotRefs_of_untaken untaken slot
    rw [slotRefs_of_space found] at none
    exact none
  refine balanced.grow ⟨fun other => ?_, fun other => ?_, fun other taken charged => ?_,
    fun other isPrivate => ?_⟩
  · rw [counted, slotRefs_of_space found]
  · rw [counted]
    by_cases same : other = page
    · rw [same, unreferenced, Pi.single_eq_same]
    · rw [Pi.single_eq_of_ne same]
      exact balanced.single slot view found other
  · by_cases same : other = page
    · exact absurd (same ▸ taken) untaken
    · rw [Pi.single_eq_of_ne same] at charged
      exact absurd charged (Nat.lt_irrefl 0)
  · rcases isPrivate with isRoot | isTable | ⟨there, leaf, mapped, writable, rfl⟩
    · exact .inr ⟨view, found, .inl isRoot⟩
    · exact .inr ⟨view, found, .inr (.inl isTable)⟩
    · rw [SpaceView.leaf_setLeaf] at mapped
      split at mapped
      · obtain rfl := Option.some.inj mapped
        exact .inl untaken
      · exact .inr ⟨view, found, .inr (.inr ⟨there, leaf, mapped, writable, rfl⟩)⟩

end Balanced

/-- The books of a kernel that has built its own space and no process yet. -/
def ofKernel (root table : Fin pageCount) : Books :=
  ⟨root, table, fun _ => none⟩

/-- Building the kernel's space out of free pages opens the books in balance. -/
theorem balanced_ofKernel (atBoot : boot.AtBoot) {root table : Fin pageCount}
    (rootFree : ¬boot.Taken root)
    (tableFree : ¬(boot.charge .kernel (Pi.single root 1)).Taken table) :
    Balanced boot (ofKernel root table)
      (boot.charge .kernel (Pi.single root 1 + Pi.single table 1)) := by
  obtain ⟨apart, tableNew⟩ := Ledger.apart_of_untaken_charge tableFree
  have atRoot : (Pi.single root 1 + Pi.single table 1 : Fin pageCount → Nat) root = 1 := by
    rw [Pi.add_apply, Pi.single_eq_same, Pi.single_eq_of_ne apart, Nat.add_zero]
  have atTable : (Pi.single root 1 + Pi.single table 1 : Fin pageCount → Nat) table = 1 := by
    rw [Pi.add_apply, Pi.single_eq_same, Pi.single_eq_of_ne apart.symm, Nat.zero_add]
  have elsewhere (page : Fin pageCount) (notRoot : page ≠ root) (notTable : page ≠ table) :
      (boot.charge .kernel (Pi.single root 1 + Pi.single table 1)).entry page =
        boot.entry page := by
    rw [Ledger.entry_charge, Pi.add_apply, Pi.single_eq_of_ne notRoot,
      Pi.single_eq_of_ne notTable, Nat.add_zero, PageInfo.charge_zero]
  exact {
    atBoot
    tidy := atBoot.tidy.charge (by decide) _
    refcount := by
      intro page
      have none : ∑ slot, (ofKernel root table).slotRefs page slot = 0 :=
        Finset.sum_eq_zero fun _ _ => rfl
      rw [Ledger.entry_charge, refs, none, Nat.add_zero]
      simp only [PageInfo.charge, Pi.add_apply, Pi.single_apply]
      rfl
    bootEntry := by
      intro page taken
      apply elsewhere page
      · rintro rfl
        exact rootFree taken
      · rintro rfl
        exact tableNew taken
    kernelRootEntry := Ledger.entry_charge_of_untaken rootFree _ atRoot
    kernelTableEntry := Ledger.entry_charge_of_untaken tableNew _ atTable
    privateEntry := by
      intro _ _ _ impossible
      cases impossible
    processOwned := by
      intro _ _ _ impossible
      cases impossible
    single := by
      intro _ _ impossible
      cases impossible
    living := by
      intro page pid owned
      by_cases isRoot : page = root
      · rw [isRoot, Ledger.entry_charge_of_untaken rootFree _ atRoot] at owned
        cases owned
      · by_cases isTable : page = table
        · rw [isTable, Ledger.entry_charge_of_untaken tableNew _ atTable] at owned
          cases owned
        · rw [elsewhere page isRoot isTable] at owned
          exact absurd owned (atBoot.owner_ne_process page pid) }

end PagingKernel.Books
