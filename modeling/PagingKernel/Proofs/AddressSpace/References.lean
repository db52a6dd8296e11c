import Mathlib.Algebra.Group.Pi.Basic
import Mathlib.Algebra.Notation.Pi.Basic
import Mathlib.Algebra.Order.BigOperators.Group.Finset
import Mathlib.Data.Fintype.Card
import PagingKernel.Proofs.AddressSpace.View
import PagingKernel.Proofs.Ledger.Charge

/-!
# What a space refers to

A space refers to the page of its directory, to the page of its page table and
to every page that it maps in the process range.  `SpaceView.refs` counts these
references page by page; it is what the ledger is charged with while the space
exists.

Where a page is referred to at most once, the reference to it is the only one,
so that the root, the page table and the leaves of the space lie apart.
-/

namespace PagingKernel.SpaceView

variable {view : SpaceView} {place other : Fin processPageCount} {leaf second : Leaf}
  {page : Fin pageCount}

/-- The places of the process range that are mapped to a page. -/
def placesOf (view : SpaceView) (page : Fin pageCount) : Finset (Fin processPageCount) :=
  Finset.univ.filter fun place => (view.leaf place).map (·.page) = some page

/-- How often the space refers to each page. -/
def refs (view : SpaceView) : Fin pageCount → Nat :=
  Pi.single view.root 1 + Pi.single view.table 1 + fun page => (view.placesOf page).card

theorem mem_placesOf : place ∈ view.placesOf page ↔ (view.leaf place).map (·.page) = some page := by
  simp [placesOf]

theorem mem_placesOf_of_leaf (found : view.leaf place = some leaf) :
    place ∈ view.placesOf leaf.page := by
  rw [mem_placesOf, found]
  rfl

theorem refs_apply (view : SpaceView) (page : Fin pageCount) :
    view.refs page = (if page = view.root then 1 else 0) + (if page = view.table then 1 else 0)
      + (view.placesOf page).card := by
  simp only [refs, Pi.add_apply, Pi.single_apply]

/-! ## Adding leaves -/

/-- A leaf at a vacant place is one more reference to its page. -/
theorem refs_setLeaf (vacant : view.leaf place = none) (leaf : Leaf) :
    (view.setLeaf place leaf).refs = view.refs + Pi.single leaf.page 1 := by
  have counted (page : Fin pageCount) : ((view.setLeaf place leaf).placesOf page).card =
      (view.placesOf page).card + (Pi.single leaf.page 1 : Fin pageCount → Nat) page := by
    by_cases same : page = leaf.page
    · have added : (view.setLeaf place leaf).placesOf page = insert place (view.placesOf page) := by
        ext other
        rw [Finset.mem_insert, mem_placesOf, mem_placesOf, leaf_setLeaf]
        by_cases here : other = place <;> simp [here, same]
      have absent : place ∉ view.placesOf page := by
        rw [mem_placesOf, vacant]
        simp
      rw [added, Finset.card_insert_of_notMem absent, same, Pi.single_eq_same]
    · have unchanged : (view.setLeaf place leaf).placesOf page = view.placesOf page := by
        ext other
        rw [mem_placesOf, mem_placesOf, leaf_setLeaf]
        by_cases here : other = place
        · simp [here, vacant, Ne.symm same]
        · rw [if_neg here]
      rw [unchanged, Pi.single_eq_of_ne same, Nat.add_zero]
  funext page
  rw [Pi.add_apply, refs_apply, refs_apply, setLeaf_root, setLeaf_table, counted, ← Nat.add_assoc]

/-- Mapping a page again at its own place does not change what the space refers to. -/
theorem refs_setLeaf_of_page (mapped : view.leaf place = some leaf) (second : Leaf)
    (same : second.page = leaf.page) : (view.setLeaf place second).refs = view.refs := by
  have unchanged (page : Fin pageCount) :
      (view.setLeaf place second).placesOf page = view.placesOf page := by
    ext other
    rw [mem_placesOf, mem_placesOf, leaf_setLeaf]
    by_cases here : other = place
    · simp [here, mapped, same]
    · rw [if_neg here]
  funext page
  rw [refs_apply, refs_apply, setLeaf_root, setLeaf_table, unchanged]

/-! ## Pages that are referred to at most once -/

theorem refs_root_pos (view : SpaceView) : 0 < view.refs view.root := by
  rw [refs_apply, if_pos rfl]
  omega

theorem refs_table_pos (view : SpaceView) : 0 < view.refs view.table := by
  rw [refs_apply, if_pos (show view.table = view.table from rfl)]
  omega

theorem refs_leaf_pos (found : view.leaf place = some leaf) : 0 < view.refs leaf.page := by
  have some_place := Finset.card_pos.mpr ⟨place, mem_placesOf_of_leaf found⟩
  rw [refs_apply]
  omega

/-- What a space refers to is its root, its page table or one of its leaves. -/
theorem refs_pos_iff :
    0 < view.refs page ↔ page = view.root ∨ page = view.table ∨
      ∃ place leaf, view.leaf place = some leaf ∧ leaf.page = page := by
  constructor
  · intro positive
    by_cases isRoot : page = view.root
    · exact .inl isRoot
    · by_cases isTable : page = view.table
      · exact .inr (.inl isTable)
      · rw [refs_apply, if_neg isRoot, if_neg isTable] at positive
        obtain ⟨place, member⟩ := Finset.card_pos.mp (show 0 < (view.placesOf page).card by omega)
        obtain ⟨leaf, found, same⟩ := Option.map_eq_some_iff.mp (mem_placesOf.mp member)
        exact .inr (.inr ⟨place, leaf, found, same⟩)
  · rintro (rfl | rfl | ⟨place, leaf, found, rfl⟩)
    · exact view.refs_root_pos
    · exact view.refs_table_pos
    · exact refs_leaf_pos found

theorem root_ne_table (single : view.refs view.root ≤ 1) : view.root ≠ view.table := by
  intro same
  rw [refs_apply, if_pos rfl, if_pos same] at single
  omega

theorem leaf_page_ne_root (single : view.refs view.root ≤ 1)
    (found : view.leaf place = some leaf) : leaf.page ≠ view.root := by
  intro same
  have some_place := Finset.card_pos.mpr ⟨place, mem_placesOf_of_leaf found⟩
  rw [refs_apply, if_pos rfl, ← same] at single
  omega

theorem leaf_page_ne_table (single : view.refs view.table ≤ 1)
    (found : view.leaf place = some leaf) : leaf.page ≠ view.table := by
  intro same
  have some_place := Finset.card_pos.mpr ⟨place, mem_placesOf_of_leaf found⟩
  rw [refs_apply, if_pos (show view.table = view.table from rfl), ← same] at single
  omega

theorem place_unique (single : view.refs leaf.page ≤ 1) (here : view.leaf place = some leaf)
    (there : view.leaf other = some second) (same : second.page = leaf.page) : other = place := by
  have few : (view.placesOf leaf.page).card ≤ 1 := by
    rw [refs_apply] at single
    omega
  refine Finset.card_le_one.mp few other ?_ place (mem_placesOf_of_leaf here)
  rw [← same]
  exact mem_placesOf_of_leaf there

/-! ## How many pages a space needs -/

/-- The places of the process range that are mapped. -/
def mapped (view : SpaceView) : Finset (Fin processPageCount) :=
  Finset.univ.filter fun place => (view.leaf place).isSome

theorem mem_mapped : place ∈ view.mapped ↔ (view.leaf place).isSome := by
  simp [mapped]

/-- A space uses up at most a page for its root, one for its page table and one for each place of
`places`, if all leaves that were free before are there. -/
theorem freePages_le_of_new {base : Ledger} {places : Finset (Fin processPageCount)}
    (listed : ∀ place leaf, view.leaf place = some leaf → ¬base.Taken leaf.page → place ∈ places)
    (owner : Owner) :
    base.freePages ≤ (base.charge owner view.refs).freePages + (2 + places.card) := by
  let pageAt (place : Fin processPageCount) : Fin pageCount :=
    ((view.leaf place).map (·.page)).getD view.root
  have covered : (Finset.univ.filter fun page => ¬base.Taken page ∧ 0 < view.refs page) ⊆
      insert view.root (insert view.table (places.image pageAt)) := by
    intro page member
    obtain ⟨-, untaken, referenced⟩ := Finset.mem_filter.mp member
    rcases refs_pos_iff.mp referenced with rfl | rfl | ⟨place, leaf, found, rfl⟩
    · exact Finset.mem_insert_self ..
    · exact Finset.mem_insert_of_mem (Finset.mem_insert_self ..)
    · have located : pageAt place = leaf.page := by
        simp [pageAt, found]
      exact Finset.mem_insert_of_mem (Finset.mem_insert_of_mem
        (Finset.mem_image.mpr ⟨place, listed place leaf found untaken, located⟩))
  have leaves : (places.image pageAt).card ≤ places.card := Finset.card_image_le
  have withTable := Finset.card_insert_le view.table (places.image pageAt)
  have withRoot := Finset.card_insert_le view.root (insert view.table (places.image pageAt))
  have used := Finset.card_le_card covered
  rw [← Ledger.freePages_charge base owner view.refs]
  omega

/-- A space uses up at most a page for its root, one for its page table and one for each leaf. -/
theorem freePages_le (base : Ledger) (owner : Owner) (view : SpaceView) :
    base.freePages ≤ (base.charge owner view.refs).freePages + (2 + view.mapped.card) := by
  refine freePages_le_of_new (fun place leaf found _ => ?_) owner
  rw [mem_mapped, found]
  rfl

/-- The places of the process range that are mapped to pages which a ledger had free. -/
def newPlaces (view : SpaceView) (base : Ledger) : Finset (Fin processPageCount) :=
  Finset.univ.filter fun place => ∃ leaf ∈ view.leaf place, ¬base.Taken leaf.page

theorem mem_newPlaces {base : Ledger} :
    place ∈ view.newPlaces base ↔ ∃ leaf, view.leaf place = some leaf ∧ ¬base.Taken leaf.page := by
  simp [newPlaces]

/-- A space whose structure is new, and that refers to no new page twice, uses up a page for its
root, one for its page table and one for each new place. -/
theorem freePages_of_single {base : Ledger} (rootNew : ¬base.Taken view.root)
    (tableNew : ¬base.Taken view.table)
    (single : ∀ page, ¬base.Taken page → view.refs page ≤ 1) (owner : Owner) :
    (base.charge owner view.refs).freePages + (2 + (view.newPlaces base).card) =
      base.freePages := by
  let pageAt (place : Fin processPageCount) : Fin pageCount :=
    ((view.leaf place).map (·.page)).getD view.root
  have located {place : Fin processPageCount} {leaf : Leaf} (found : view.leaf place = some leaf) :
      pageAt place = leaf.page := by
    simp [pageAt, found]
  have used : (Finset.univ.filter fun page => ¬base.Taken page ∧ 0 < view.refs page) =
      insert view.root (insert view.table ((view.newPlaces base).image pageAt)) := by
    ext page
    rw [Finset.mem_filter, refs_pos_iff, Finset.mem_insert, Finset.mem_insert, Finset.mem_image]
    constructor
    · rintro ⟨-, untaken, rfl | rfl | ⟨place, leaf, found, rfl⟩⟩
      · exact .inl rfl
      · exact .inr (.inl rfl)
      · exact .inr (.inr ⟨place, mem_newPlaces.mpr ⟨leaf, found, untaken⟩, located found⟩)
    · rintro (rfl | rfl | ⟨place, member, rfl⟩)
      · exact ⟨Finset.mem_univ _, rootNew, .inl rfl⟩
      · exact ⟨Finset.mem_univ _, tableNew, .inr (.inl rfl)⟩
      · obtain ⟨leaf, found, untaken⟩ := mem_newPlaces.mp member
        rw [located found]
        exact ⟨Finset.mem_univ _, untaken, .inr (.inr ⟨place, leaf, found, rfl⟩)⟩
  have onceEach : Set.InjOn pageAt (view.newPlaces base) := by
    intro first firstNew second secondNew same
    obtain ⟨leaf, found, untaken⟩ := mem_newPlaces.mp firstNew
    obtain ⟨other, alsoFound, -⟩ := mem_newPlaces.mp secondNew
    rw [located found, located alsoFound] at same
    exact (place_unique (single _ untaken) found alsoFound same.symm).symm
  have apart (place : Fin processPageCount) (member : place ∈ view.newPlaces base) :
      pageAt place ≠ view.root ∧ pageAt place ≠ view.table := by
    obtain ⟨leaf, found, -⟩ := mem_newPlaces.mp member
    rw [located found]
    exact ⟨leaf_page_ne_root (single _ rootNew) found, leaf_page_ne_table (single _ tableNew) found⟩
  have tableAbsent : view.table ∉ (view.newPlaces base).image pageAt := by
    rw [Finset.mem_image]
    rintro ⟨place, member, same⟩
    exact (apart place member).2 same
  have rootAbsent : view.root ∉ insert view.table ((view.newPlaces base).image pageAt) := by
    rw [Finset.mem_insert, Finset.mem_image, not_or]
    refine ⟨root_ne_table (single _ rootNew), ?_⟩
    rintro ⟨place, member, same⟩
    exact (apart place member).1 same
  rw [← Ledger.freePages_charge base owner view.refs, used, Finset.card_insert_of_notMem rootAbsent,
    Finset.card_insert_of_notMem tableAbsent, Finset.card_image_of_injOn onceEach]
  omega

/-! From here on references are counted by the lemmas above, and never by evaluating the sums. -/

attribute [irreducible] refs

end PagingKernel.SpaceView
