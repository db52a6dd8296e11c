import PagingKernel.Proofs.AddressSpace.MapPage
import PagingKernel.Proofs.AddressSpace.References

/-!
# Building the space of a process

`Built base before view ram` is the invariant of every construction: a space
with this view stands in `ram`, it is made of pages that the ledger `base` had
free, and the pages that `base` had taken hold what they held in `before`.  The
ledger meanwhile is `base` charged with the references of the view.

A space is built by mapping one page after another, and each lemma here adds or
changes one leaf.
-/

namespace PagingKernel

open PageTable PagingKernel.Action

/-- A space stands in memory, over the words `low` below the process range, that was built out of
pages which the ledger had free. -/
structure BuiltOver (low : Nat → UInt32) (base : Ledger) (before : Ram) (view : SpaceView)
    (ram : Ram) : Prop where
  stands : view.StandsOver low ram
  kept : ∀ page, base.Taken page → Ram.SamePage before ram page
  rootNew : ¬base.Taken view.root
  tableNew : ¬base.Taken view.table
  single : ∀ page, ¬base.Taken page → view.refs page ≤ 1
  openedNew : ∀ place leaf, view.leaf place = some leaf → leaf.writable = true →
    ¬base.Taken leaf.page

/-- A space that agrees with the kernel's below the process range was built out of pages which the
ledger had free. -/
abbrev Built (base : Ledger) (before : Ram) (view : SpaceView) (ram : Ram) : Prop :=
  BuiltOver kernelWord base before view ram

variable {low : Nat → UInt32} {base ledger : Ledger} {before ram next : Ram} {view : SpaceView}
  {owner : Owner} {place : Fin processPageCount} {leaf : Leaf} {page : Fin pageCount}

/-! ## Mapping a page in a space that stands -/

namespace SpaceView

/-- A page is mapped at a place that is vacant or maps it already by writing one word. -/
theorem StandsOver.map_eq_ok (stands : view.StandsOver low ram) (ledger : Ledger) (owner : Owner)
    (place : Fin processPageCount) (leaf : Leaf)
    (vacant : ∀ mapped ∈ view.leaf place, mapped.page = leaf.page) :
    (view.space owner).map (.ofPage (placeNumber place)) (.ofPage leaf.page) pageSize leaf.flags
        ⟨ledger, ram⟩ =
      .ok () ⟨ledger, ram.setEntry view.table (placeNumber place) leaf.word⟩ := by
  have below := placeNumber_lt place
  refine AddressSpace.map_lowPage_eq_ok ledger owner below (Ram.Spans.refersTo stands) ?_ leaf.flags
  rw [stands.entries _ below, decodeEntry_wordOver_placeNumber]
  intro mapping found
  obtain ⟨mapped, member, rfl⟩ := Option.map_eq_some_iff.mp found
  rw [Leaf.mapping_pa, vacant mapped member]

/-- A fresh page is mapped at a vacant place whenever a page is free. -/
theorem StandsOver.ensures_mapFresh (stands : view.StandsOver low ram) (tidy : ledger.Tidy)
    (owned : owner ≠ .free) (rootTaken : ledger.Taken view.root)
    (tableTaken : ledger.Taken view.table) (vacant : view.leaf place = none) (writable : Bool) :
    ((view.space owner).mapFresh (.ofPage (placeNumber place)) (userFlags writable)).Ensures
        ⟨ledger, ram⟩
      (fun pa memory => ∃ page : Fin pageCount, pa = .ofPage page ∧ Memory.NextFree ledger page ∧
        memory = ⟨ledger.charge owner (Pi.single page 1),
          (ram.clear page).setEntry view.table (placeNumber place) (Leaf.word ⟨page, writable⟩)⟩)
      fun cause memory => ∃ reason, cause = .alloc reason ∧ Memory.Exhausted ledger reason ∧
        memory = ⟨ledger, ram⟩ := by
  have below := placeNumber_lt place
  refine AddressSpace.ensures_mapFresh_lowPage tidy owned below (Ram.Spans.refersTo stands)
    rootTaken tableTaken ?_ (userFlags writable)
  rw [stands.entries _ below, decodeEntry_wordOver_placeNumber, vacant, Option.map_none]

end SpaceView

/-! ## Adding and changing leaves -/

namespace BuiltOver

theorem root_ne_table (built : BuiltOver low base before view ram) : view.root ≠ view.table :=
  SpaceView.root_ne_table (built.single _ built.rootNew)

theorem root_taken (view : SpaceView) : (base.charge owner view.refs).Taken view.root :=
  Ledger.taken_charge_iff.mpr (.inr view.refs_root_pos)

theorem table_taken (view : SpaceView) : (base.charge owner view.refs).Taken view.table :=
  Ledger.taken_charge_iff.mpr (.inr view.refs_table_pos)

/-- Stores in pages that are neither taken nor structural do not disturb a construction. -/
theorem congr (built : BuiltOver low base before view ram)
    (same : ∀ other, base.Taken other ∨ other = view.root ∨ other = view.table →
      Ram.SamePage ram next other) : BuiltOver low base before view next where
  stands := built.stands.congr (same _ (.inr (.inl rfl))) (same _ (.inr (.inr rfl)))
  kept page taken := (built.kept page taken).trans (same page (.inl taken))
  rootNew := built.rootNew
  tableNew := built.tableNew
  single := built.single
  openedNew := built.openedNew

/-- Writing a word of the page table sets a leaf. -/
theorem setLeaf (built : BuiltOver low base before view ram)
    (single : ∀ page, ¬base.Taken page → (view.setLeaf place leaf).refs page ≤ 1)
    (openedNew : leaf.writable = true → ¬base.Taken leaf.page) :
    BuiltOver low base before (view.setLeaf place leaf)
      (ram.setEntry view.table (placeNumber place) leaf.word) where
  stands := built.stands.setLeaf built.root_ne_table place leaf
  kept page taken := by
    have apart : page ≠ view.table := fun same => built.tableNew (same ▸ taken)
    exact (built.kept page taken).trans
      (Ram.samePage_setEntry_of_ne (placeNumber_lt place) apart leaf.word)
  rootNew := built.rootNew
  tableNew := built.tableNew
  single := single
  openedNew := by
    intro other found mapped writable
    rw [SpaceView.leaf_setLeaf] at mapped
    split at mapped
    · obtain rfl := Option.some.inj mapped
      exact openedNew writable
    · exact built.openedNew other found mapped writable

/-- A page that nothing refers to yet is filled and mapped at a vacant place. -/
theorem addLeaf (built : BuiltOver low base before view ram) (leaf : Leaf)
    (untaken : ¬(base.charge owner view.refs).Taken leaf.page) (vacant : view.leaf place = none)
    (same : ∀ other, other ≠ leaf.page → Ram.SamePage ram next other) :
    BuiltOver low base before (view.setLeaf place leaf)
      (next.setEntry view.table (placeNumber place) leaf.word) := by
  obtain ⟨new, unreferenced⟩ : ¬base.Taken leaf.page ∧ ¬0 < view.refs leaf.page := by
    rw [Ledger.taken_charge_iff, not_or] at untaken
    exact untaken
  have filled : BuiltOver low base before view next := by
    refine built.congr fun other held => same other ?_
    rintro rfl
    rcases held with taken | isRoot | isTable
    · exact new taken
    · exact unreferenced (isRoot ▸ view.refs_root_pos)
    · exact unreferenced (isTable ▸ view.refs_table_pos)
  refine filled.setLeaf ?_ fun _ => new
  intro page untaken
  rw [SpaceView.refs_setLeaf vacant, Pi.add_apply]
  by_cases here : page = leaf.page
  · rw [here, Pi.single_eq_same]
    omega
  · rw [Pi.single_eq_of_ne here]
    exact built.single page untaken

/-- A page that is taken already is mapped for reading at a vacant place. -/
theorem shareLeaf (built : BuiltOver low base before view ram) (taken : base.Taken page)
    (vacant : view.leaf place = none) :
    BuiltOver low base before (view.setLeaf place ⟨page, false⟩)
      (ram.setEntry view.table (placeNumber place) (Leaf.word ⟨page, false⟩)) := by
  refine built.setLeaf ?_ fun impossible => by cases impossible
  intro other untaken
  have apart : other ≠ (⟨page, false⟩ : Leaf).page := fun same => untaken (same ▸ taken)
  rw [SpaceView.refs_setLeaf vacant, Pi.add_apply, Pi.single_eq_of_ne apart]
  exact built.single other untaken

/-- A new page that is mapped already is opened for writing. -/
theorem openLeaf (built : BuiltOver low base before view ram) (mapped : view.leaf place = some leaf)
    (new : ¬base.Taken leaf.page) :
    BuiltOver low base before (view.setLeaf place ⟨leaf.page, true⟩)
      (ram.setEntry view.table (placeNumber place) (Leaf.word ⟨leaf.page, true⟩)) := by
  refine built.setLeaf ?_ fun _ => new
  intro page untaken
  rw [SpaceView.refs_setLeaf_of_page mapped ⟨leaf.page, true⟩ rfl]
  exact built.single page untaken

/-- A page is cleared while the leaves of a space hold what they held. -/
structure ClearedBeside (view : SpaceView) (ram : Ram) (page : Fin pageCount) (next : Ram) :
    Prop where
  blank : ∀ offset < pageSize, next.pageByte page offset = 0
  leaves : ∀ place leaf, view.leaf place = some leaf → Ram.SamePage ram next leaf.page

theorem leaf_page_ne_table (built : BuiltOver low base before view ram)
    (found : view.leaf place = some leaf) : leaf.page ≠ view.table :=
  SpaceView.leaf_page_ne_table (built.single _ built.tableNew) found

/-- A fresh page is mapped at a vacant place whenever a page is free. -/
theorem ensures_mapFresh (built : BuiltOver low base before view ram) (tidy : base.Tidy)
    (owned : owner ≠ .free) (vacant : view.leaf place = none) (writable : Bool) :
    ((view.space owner).mapFresh (.ofPage (placeNumber place)) (userFlags writable)).Ensures
        ⟨base.charge owner view.refs, ram⟩
      (fun pa memory => ∃ (page : Fin pageCount) (next : Ram),
        pa = .ofPage page ∧ ¬base.Taken page ∧
        memory = ⟨base.charge owner (view.setLeaf place ⟨page, writable⟩).refs, next⟩ ∧
        BuiltOver low base before (view.setLeaf place ⟨page, writable⟩) next ∧
        ClearedBeside view ram page next)
      fun cause memory => ∃ reason, cause = .alloc reason ∧
        Memory.Exhausted (base.charge owner view.refs) reason ∧
        memory = ⟨base.charge owner view.refs, ram⟩ := by
  refine (built.stands.ensures_mapFresh (tidy.charge owned _) owned (root_taken view)
    (table_taken view) vacant writable).mono ?_ fun _ _ held => held
  rintro _ _ ⟨page, rfl, nextFree, rfl⟩
  have new : ¬base.Taken page := fun taken => nextFree.untaken (taken.charge owner _)
  have notTable : page ≠ view.table := fun same => nextFree.untaken (same ▸ table_taken view)
  refine ⟨page, _, rfl, new, ?_, built.addLeaf ⟨page, writable⟩ nextFree.untaken vacant
    fun other apart => Ram.samePage_clear_of_ne apart, ?blank, ?leaves⟩
  · rw [Ledger.charge_charge, SpaceView.refs_setLeaf vacant]
  case blank =>
    intro offset inside
    rw [← Ram.samePage_setEntry_of_ne (placeNumber_lt place) notTable _ offset inside,
      Ram.pageByte_clear inside]
  case leaves =>
    intro other leaf found
    have apart : leaf.page ≠ page := by
      rintro rfl
      exact nextFree.untaken (Ledger.taken_charge_iff.mpr (.inr (SpaceView.refs_leaf_pos found)))
    exact (Ram.samePage_clear_of_ne apart).trans
      (Ram.samePage_setEntry_of_ne (placeNumber_lt place) (built.leaf_page_ne_table found) _)

end BuiltOver

end PagingKernel
