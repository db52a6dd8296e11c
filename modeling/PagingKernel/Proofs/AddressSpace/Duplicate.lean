import PagingKernel.AddressSpace.Fork
import PagingKernel.Proofs.AddressSpace.Template

/-!
# Copying a space

A child inherits its parent's places one by one.  What a place of the child
holds is `Inherited`: a page of its own with the same bytes where the parent may
write, the parent's own page where the parent may only read, and nothing
elsewhere.  If a place cannot be inherited, the child is taken apart, and the
ledger is as it was.
-/

namespace PagingKernel

open PageTable PagingKernel.Action

/-- What a child has at a place where its parent maps `source`. -/
def Inherited (source : Option Mapping) (before now : Ram) (leaf : Option Leaf) : Prop :=
  match source with
  | none => leaf = none
  | some mapping =>
      if mapping.flags.isUserWritable then
        ∃ original copy : Fin pageCount, mapping.pa = .ofPage original ∧ leaf = some ⟨copy, true⟩ ∧
          ∀ offset < pageSize, now.pageByte copy offset = before.pageByte original offset
      else if mapping.flags.isUserReadOnly then
        ∃ page : Fin pageCount, mapping.pa = .ofPage page ∧ leaf = some ⟨page, false⟩
      else leaf = none

theorem Inherited.congr {source : Option Mapping} {before now next : Ram} {leaf : Option Leaf}
    (inherited : Inherited source before now leaf)
    (same : ∀ found, leaf = some found → Ram.SamePage now next found.page) :
    Inherited source before next leaf := by
  unfold Inherited at inherited ⊢
  split at inherited
  · exact inherited
  · split at inherited
    · rename_i writable
      rcases inherited with ⟨original, copy, atOriginal, atCopy, bytes⟩
      rw [if_pos writable]
      refine ⟨original, copy, atOriginal, atCopy, fun offset inside => ?_⟩
      rw [← bytes offset inside]
      exact (same _ atCopy offset inside).symm
    · rename_i notWritable
      rw [if_neg notWritable]
      exact inherited

variable {low : Nat → UInt32} {base : Ledger} {before ram : Ram} {view : SpaceView}
  {owner : Owner} {place : Fin processPageCount} {page : Fin pageCount}

namespace BuiltOver

/-- Pages that a construction refers to are not touched by the next leaf. -/
theorem referenced_ne (untaken : ¬(base.charge owner view.refs).Taken page)
    {other : Fin pageCount} (referenced : 0 < view.refs other) : other ≠ page := by
  rintro rfl
  exact untaken (Ledger.taken_charge_iff.mpr (.inr referenced))

/-- What the next place of a child may change: its leaf, and no page that was in use. -/
structure Extended (low : Nat → UInt32) (base : Ledger) (before : Ram) (view : SpaceView)
    (place : Fin processPageCount) (ram : Ram) (child : SpaceView) (next : Ram) : Prop where
  built : BuiltOver low base before child next
  root_eq : child.root = view.root
  others : ∀ other, other ≠ place → child.leaf other = view.leaf other
  kept : ∀ page, page ≠ view.table → 0 < view.refs page → Ram.SamePage ram next page

theorem ensures_copyWritable (built : BuiltOver low base before view ram) (tidy : base.Tidy)
    (owned : owner ≠ .free) (vacant : view.leaf place = none) (taken : base.Taken page) :
    ((view.space owner).copyWritable (.ofPage (placeNumber place)) (.ofPage page)).Ensures
        ⟨base.charge owner view.refs, ram⟩
      (fun _ memory => ∃ copy next, Memory.NextFree (base.charge owner view.refs) copy ∧
        memory = ⟨base.charge owner (view.setLeaf place ⟨copy, true⟩).refs, next⟩ ∧
        Extended low base before view place ram (view.setLeaf place ⟨copy, true⟩) next ∧
        ∀ offset < pageSize, next.pageByte copy offset = before.pageByte page offset)
      fun cause memory => (∃ reason, cause = .alloc reason ∧
          Memory.Exhausted (base.charge owner view.refs) reason) ∧
        memory = ⟨base.charge owner view.refs, ram⟩ := by
  simp only [AddressSpace.copyWritable, ensures_bind, ensures_mapCause, ensures_onRefusal]
  apply (Memory.ensures_claimFree (tidy.charge owned _) owned).mono
  · rintro _ _ ⟨copy, rfl, nextFree, rfl⟩
    have notRoot : view.root ≠ copy := referenced_ne nextFree.untaken view.refs_root_pos
    have notTable : view.table ≠ copy := referenced_ne nextFree.untaken view.refs_table_pos
    have stands : view.StandsOver low (ram.copied page copy) :=
      built.stands.congr (Ram.samePage_copied_of_ne notRoot) (Ram.samePage_copied_of_ne notTable)
    have mapped := stands.map_eq_ok ((base.charge owner view.refs).charge owner (Pi.single copy 1))
      owner place ⟨copy, true⟩ (by simp [vacant])
    rw [Memory.ensures_onRam]
    refine (ensures_of_eq_ok Ram.copyPage_ofPage).mpr ((ensures_of_eq_ok mapped).mpr ?_)
    refine ⟨copy, (ram.copied page copy).setEntry view.table (placeNumber place)
      (Leaf.word ⟨copy, true⟩), nextFree, ?_, ⟨?_, rfl, ?_, ?_⟩, ?_⟩
    · rw [Ledger.charge_charge, SpaceView.refs_setLeaf vacant]
    · exact built.addLeaf ⟨copy, true⟩ nextFree.untaken vacant
        fun other apart => Ram.samePage_copied_of_ne apart
    · exact fun other apart => SpaceView.leaf_setLeaf_of_ne apart
    · intro other otherTable referenced
      have otherCopy : other ≠ copy := referenced_ne nextFree.untaken referenced
      exact (Ram.samePage_copied_of_ne otherCopy).trans
        (Ram.samePage_setEntry_of_ne (placeNumber_lt place) otherTable _)
    · intro offset inside
      have stored : (ram.copied page copy).pageByte copy offset = _ :=
        Ram.samePage_setEntry_of_ne (placeNumber_lt place) notTable.symm (Leaf.word ⟨copy, true⟩)
          offset inside
      rw [← stored, Ram.pageByte_copied inside]
      exact (built.kept page taken offset inside).symm
  · rintro reason _ ⟨exhausted, rfl⟩
    exact ⟨⟨reason, rfl, exhausted⟩, rfl⟩

theorem ensures_shareReadOnly (built : BuiltOver low base before view ram)
    (vacant : view.leaf place = none)
    (taken : base.Taken page) :
    ((view.space owner).shareReadOnly (.ofPage (placeNumber place)) (.ofPage page)).Ensures
        ⟨base.charge owner view.refs, ram⟩
      (fun _ memory => ((base.charge owner view.refs).entry page).refcount < refcountLimit ∧
        ∃ next, memory = ⟨base.charge owner (view.setLeaf place ⟨page, false⟩).refs, next⟩ ∧
          Extended low base before view place ram (view.setLeaf place ⟨page, false⟩) next)
      fun cause memory => (cause = .alloc .refcountOverflow ∧
          refcountLimit ≤ ((base.charge owner view.refs).entry page).refcount) ∧
        memory = ⟨base.charge owner view.refs, ram⟩ := by
  simp only [AddressSpace.shareReadOnly, ensures_bind, ensures_mapCause, ensures_onRefusal]
  apply (Memory.ensures_share (taken.charge owner _) owner).mono
  · rintro _ _ ⟨room, rfl⟩
    have mapped := built.stands.map_eq_ok
      ((base.charge owner view.refs).charge owner (Pi.single page 1)) owner place ⟨page, false⟩
      (by simp [vacant])
    apply (ensures_of_eq_ok mapped).mpr
    refine ⟨room, ram.setEntry view.table (placeNumber place) (Leaf.word ⟨page, false⟩), ?_,
      ⟨?_, rfl, ?_, ?_⟩⟩
    · rw [Ledger.charge_charge, SpaceView.refs_setLeaf vacant]
    · exact built.shareLeaf taken vacant
    · exact fun other apart => SpaceView.leaf_setLeaf_of_ne apart
    · exact fun other otherTable _ =>
        Ram.samePage_setEntry_of_ne (placeNumber_lt place) otherTable _
  · rintro reason _ ⟨rfl, full, rfl⟩
    exact ⟨⟨rfl, full⟩, rfl⟩

/-- Why a place cannot be inherited: no page is free for a copy, or a page is shared too often. -/
inductive Uninheritable (ledger : Ledger) (source : Option Mapping) : Prop
  | full {mapping : Mapping} (found : source = some mapping)
      (writable : mapping.flags.isUserWritable = true) (full : ledger.freePages = 0)
  | overflow {mapping : Mapping} {page : Fin pageCount} (found : source = some mapping)
      (notWritable : mapping.flags.isUserWritable = false)
      (readOnly : mapping.flags.isUserReadOnly = true) (backed : mapping.pa = .ofPage page)
      (overflow : refcountLimit ≤ (ledger.entry page).refcount)

theorem ensures_inheritPage (built : BuiltOver low base before view ram) (tidy : base.Tidy)
    (owned : owner ≠ .free) (vacant : view.leaf place = none) {parent : AddressSpace}
    {source : Option Mapping}
    (seen : parent.dir.lookup ram (.ofPage (placeNumber place)) = .ok source)
    (backed : ∀ mapping ∈ source, ∃ page : Fin pageCount, mapping.pa = .ofPage page ∧
      base.Taken page) :
    (parent.inheritPage (view.space owner) (placeNumber place)).Ensures
        ⟨base.charge owner view.refs, ram⟩
      (fun _ memory => ∃ child next, memory = ⟨base.charge owner child.refs, next⟩ ∧
        Extended low base before view place ram child next ∧
        Inherited source before next (child.leaf place))
      fun cause memory => (∃ reason, cause = .alloc reason) ∧
        Uninheritable (base.charge owner view.refs) source ∧
        memory = ⟨base.charge owner view.refs, ram⟩ := by
  have unchanged : Extended low base before view place ram view ram :=
    ⟨built, rfl, fun _ _ => rfl, fun page _ _ => Ram.SamePage.refl ram page⟩
  rw [AddressSpace.inheritPage, ensures_bind, ensures_peek]
  refine ⟨source, AddressSpace.lookup_eq seen, ?_⟩
  cases source with
  | none => exact ensures_pure.mpr ⟨view, ram, rfl, unchanged, vacant⟩
  | some mapping =>
      rcases mapping with ⟨pa, flags⟩
      obtain ⟨page, rfl, taken⟩ := backed _ rfl
      dsimp only
      by_cases writable : flags.isUserWritable = true
      · rw [if_pos writable]
        apply (built.ensures_copyWritable tidy owned vacant taken).mono
        · rintro _ _ ⟨copy, next, -, rfl, extended, bytes⟩
          refine ⟨_, next, rfl, extended, ?_⟩
          rw [Inherited, if_pos writable, SpaceView.leaf_setLeaf_self]
          exact ⟨page, copy, rfl, rfl, bytes⟩
        · rintro _ _ ⟨⟨reason, rfl, exhausted⟩, rfl⟩
          exact ⟨⟨reason, rfl⟩, .full rfl writable exhausted.freePages_eq, rfl⟩
      · rw [if_neg writable]
        by_cases readOnly : flags.isUserReadOnly = true
        · rw [if_pos readOnly]
          apply (built.ensures_shareReadOnly vacant taken).mono
          · rintro _ _ ⟨-, next, rfl, extended⟩
            refine ⟨_, next, rfl, extended, ?_⟩
            rw [Inherited, if_neg writable, if_pos readOnly, SpaceView.leaf_setLeaf_self]
            exact ⟨page, rfl, rfl⟩
          · rintro _ _ ⟨⟨rfl, often⟩, rfl⟩
            exact ⟨⟨_, rfl⟩, .overflow rfl (Bool.eq_false_iff.mpr writable) readOnly rfl often, rfl⟩
        · rw [if_neg readOnly]
          refine ensures_pure.mpr ⟨view, ram, rfl, unchanged, ?_⟩
          rw [Inherited, if_neg writable, if_neg readOnly]
          exact vacant

end BuiltOver

/-! ## The whole process range -/

/-- A parent maps `source` in the process range while the taken pages keep what they hold. -/
structure Inheritable (base : Ledger) (before : Ram) (parent : AddressSpace)
    (source : Fin processPageCount → Option Mapping) : Prop where
  reads : ∀ next, (∀ page, base.Taken page → Ram.SamePage before next page) →
    ∀ place, parent.dir.lookup next (.ofPage (placeNumber place)) = .ok (source place)
  backed : ∀ place, ∀ mapping ∈ source place, ∃ page : Fin pageCount, mapping.pa = .ofPage page ∧
    base.Taken page

theorem SpaceView.StandsOver.inheritable (stands : view.StandsOver low before)
    (taken : ∀ page, 0 < view.refs page → base.Taken page) (owner : Owner) :
    Inheritable base before (view.space owner) fun place => (view.leaf place).map Leaf.mapping where
  reads next kept place := by
    have still : view.StandsOver low next := stands.congr (kept _ (taken _ view.refs_root_pos))
      (kept _ (taken _ view.refs_table_pos))
    exact still.lookup_placeNumber place
  backed place mapping found := by
    obtain ⟨leaf, mapped, rfl⟩ := Option.map_eq_some_iff.mp found
    exact ⟨leaf.page, rfl, taken _ (SpaceView.refs_leaf_pos mapped)⟩

/-- A child has inherited the places below a bound, and nothing above. -/
structure InheritedBelow (low : Nat → UInt32) (base : Ledger) (before : Ram)
    (source : Fin processPageCount → Option Mapping) (bound : Nat) (child : SpaceView)
    (ram : Ram) : Prop where
  built : BuiltOver low base before child ram
  below : ∀ place : Fin processPageCount, place.val < bound →
    Inherited (source place) before ram (child.leaf place)
  above : ∀ place : Fin processPageCount, bound ≤ place.val → child.leaf place = none

theorem InheritedBelow.extend {source : Fin processPageCount → Option Mapping} {child : SpaceView}
    {next : Ram} (inherited : InheritedBelow low base before source place.val view ram)
    (extended : BuiltOver.Extended low base before view place ram child next)
    (here : Inherited (source place) before next (child.leaf place)) :
    InheritedBelow low base before source (place.val + 1) child next where
  built := extended.built
  below other inside := by
    by_cases same : other = place
    · rw [same]
      exact here
    · have earlier : other.val < place.val := by
        have apart : other.val ≠ place.val := fun equal => same (Fin.ext equal)
        omega
      rw [extended.others other same]
      refine (inherited.below other earlier).congr fun leaf found => ?_
      exact extended.kept _ (SpaceView.leaf_page_ne_table
        (inherited.built.single _ inherited.built.tableNew) found) (SpaceView.refs_leaf_pos found)
  above other beyond := by
    have apart : other ≠ place := by
      rintro rfl
      omega
    rw [extended.others other apart]
    exact inherited.above other (by omega)

/-! ## What a parent needs to be inherited -/

/-- The places whose pages a child gets copies of. -/
def copiedPlaces (source : Fin processPageCount → Option Mapping) :
    Finset (Fin processPageCount) :=
  Finset.univ.filter fun place => ∃ mapping ∈ source place, mapping.flags.isUserWritable = true

/-- The places at which a child shares a page. -/
def sharedPlaces (source : Fin processPageCount → Option Mapping) (page : Fin pageCount) :
    Finset (Fin processPageCount) :=
  Finset.univ.filter fun place => ∃ mapping ∈ source place, mapping.flags.isUserWritable = false ∧
    mapping.flags.isUserReadOnly = true ∧ mapping.pa = .ofPage page

/-- There are too few free pages for a child, or it would share a page too often. -/
def Unaffordable (base : Ledger) (source : Fin processPageCount → Option Mapping) : Prop :=
  base.freePages < 2 + (copiedPlaces source).card ∨
    ∃ page, (sharedPlaces source page).Nonempty ∧
      refcountLimit < (base.entry page).refcount + (sharedPlaces source page).card

variable {source : Fin processPageCount → Option Mapping} {leaf : Leaf}

/-- A leaf that was inherited is a copy, or the page that the parent has there. -/
theorem Inherited.copied_or_shared {now : Ram}
    (inherited : Inherited (source place) before now (some leaf)) :
    place ∈ copiedPlaces source ∧ leaf.writable = true ∨
      place ∈ sharedPlaces source leaf.page ∧ leaf.writable = false := by
  simp only [copiedPlaces, sharedPlaces, Finset.mem_filter, Finset.mem_univ, true_and]
  cases found : source place with
  | none =>
      rw [found] at inherited
      cases inherited
  | some mapping =>
      simp only [found, Inherited] at inherited
      split at inherited
      · rename_i writable
        obtain ⟨_, copy, -, same, -⟩ := inherited
        obtain rfl := Option.some.inj same
        exact .inl ⟨⟨mapping, rfl, writable⟩, rfl⟩
      · rename_i notWritable
        split at inherited
        · rename_i readOnly
          obtain ⟨page, backed, same⟩ := inherited
          obtain rfl := Option.some.inj same
          exact .inr ⟨⟨mapping, rfl, Bool.eq_false_iff.mpr notWritable, readOnly, backed⟩, rfl⟩
        · cases inherited

namespace InheritedBelow

variable {bound : Nat} {child : SpaceView}

theorem lt_of_leaf (inherited : InheritedBelow low base before source bound child ram)
    (mapped : child.leaf place = some leaf) : place.val < bound := by
  by_contra beyond
  rw [inherited.above place (Nat.le_of_not_lt beyond)] at mapped
  cases mapped

theorem copied_or_shared (inherited : InheritedBelow low base before source bound child ram)
    (mapped : child.leaf place = some leaf) :
    place ∈ copiedPlaces source ∧ leaf.writable = true ∨
      place ∈ sharedPlaces source leaf.page ∧ leaf.writable = false := by
  have here := inherited.below place (inherited.lt_of_leaf mapped)
  rw [mapped] at here
  exact here.copied_or_shared

theorem refs_le_of_taken (inherited : InheritedBelow low base before source bound child ram)
    (taken : base.Taken page) :
    child.refs page ≤
      ((sharedPlaces source page).filter fun place => place.val < bound).card := by
  have notRoot : page ≠ child.root := fun same => inherited.built.rootNew (same ▸ taken)
  have notTable : page ≠ child.table := fun same => inherited.built.tableNew (same ▸ taken)
  rw [SpaceView.refs_apply, if_neg notRoot, if_neg notTable, Nat.zero_add]
  refine Finset.card_le_card fun place member => ?_
  obtain ⟨leaf, mapped, rfl⟩ := Option.map_eq_some_iff.mp (SpaceView.mem_placesOf.mp member)
  refine Finset.mem_filter.mpr ⟨?_, inherited.lt_of_leaf mapped⟩
  rcases inherited.copied_or_shared mapped with ⟨-, writable⟩ | ⟨shared, -⟩
  · exact absurd taken (inherited.built.openedNew place leaf mapped writable)
  · exact shared

/-- A child that is complete shares each page at all the places where its parent only reads it. -/
theorem sharedPlaces_subset
    (inherited : InheritedBelow low base before source processPageCount child ram)
    (page : Fin pageCount) : sharedPlaces source page ⊆ child.placesOf page := by
  intro place member
  obtain ⟨mapping, found, notWritable, readOnly, atPage⟩ := (Finset.mem_filter.mp member).2
  have here := inherited.below place place.isLt
  rw [Option.mem_def.mp found, Inherited, if_neg (by simp [notWritable]), if_pos readOnly] at here
  obtain ⟨shared, alsoAtPage, mapped⟩ := here
  obtain rfl : page = shared := PhysAddr.ofPage_inj.mp (atPage.symm.trans alsoAtPage)
  rw [SpaceView.mem_placesOf, mapped, Option.map_some]

/-- A child that is complete refers to a page that was taken exactly where it shares it. -/
theorem refs_of_taken
    (inherited : InheritedBelow low base before source processPageCount child ram)
    (taken : base.Taken page) : child.refs page = (sharedPlaces source page).card := by
  have few := inherited.refs_le_of_taken taken
  have many := Finset.card_le_card (inherited.sharedPlaces_subset page)
  have filtered := Finset.card_filter_le (sharedPlaces source page) fun place =>
    place.val < processPageCount
  rw [SpaceView.refs_apply] at few ⊢
  omega

/-- The new pages of a child that is complete are the copies of what its parent may write. -/
theorem newPlaces_eq
    (inherited : InheritedBelow low base before source processPageCount child ram)
    (backed : ∀ place, ∀ mapping ∈ source place, ∃ page : Fin pageCount,
      mapping.pa = .ofPage page ∧ base.Taken page) :
    child.newPlaces base = copiedPlaces source := by
  ext place
  rw [SpaceView.mem_newPlaces]
  constructor
  · rintro ⟨leaf, mapped, untaken⟩
    rcases inherited.copied_or_shared mapped with ⟨copied, -⟩ | ⟨shared, -⟩
    · exact copied
    · obtain ⟨mapping, found, -, -, atPage⟩ := (Finset.mem_filter.mp shared).2
      obtain ⟨page, alsoAtPage, taken⟩ := backed place mapping found
      rw [atPage, PhysAddr.ofPage_inj] at alsoAtPage
      exact absurd (alsoAtPage ▸ taken) untaken
  · intro member
    obtain ⟨mapping, found, writable⟩ := (Finset.mem_filter.mp member).2
    have here := inherited.below place place.isLt
    rw [Option.mem_def.mp found, Inherited, if_pos writable] at here
    obtain ⟨_, copy, -, mapped, -⟩ := here
    exact ⟨⟨copy, true⟩, mapped, inherited.built.openedNew place _ mapped rfl⟩

/-- A child uses up a page for its root, one for its page table and one for each copy. -/
theorem freePages_eq
    (inherited : InheritedBelow low base before source processPageCount child ram)
    (backed : ∀ place, ∀ mapping ∈ source place, ∃ page : Fin pageCount,
      mapping.pa = .ofPage page ∧ base.Taken page) (owner : Owner) :
    (base.charge owner child.refs).freePages + (2 + (copiedPlaces source).card) =
      base.freePages := by
  rw [← inherited.newPlaces_eq backed]
  exact SpaceView.freePages_of_single inherited.built.rootNew inherited.built.tableNew
    inherited.built.single owner

/-- A parent that was inherited could be, if all references were counted. -/
theorem affordable
    (inherited : InheritedBelow low base before source processPageCount child ram)
    (backed : ∀ place, ∀ mapping ∈ source place, ∃ page : Fin pageCount,
      mapping.pa = .ofPage page ∧ base.Taken page)
    (counted : ∀ page, ((base.charge owner child.refs).entry page).refcount ≤ refcountLimit) :
    ¬Unaffordable base source := by
  rintro (short | ⟨page, ⟨place, shared⟩, overflow⟩)
  · have used := inherited.freePages_eq backed owner
    omega
  · obtain ⟨mapping, found, -, -, atPage⟩ := (Finset.mem_filter.mp shared).2
    obtain ⟨other, alsoAtPage, taken⟩ := backed place mapping found
    rw [atPage, PhysAddr.ofPage_inj] at alsoAtPage
    have fits := counted page
    rw [Ledger.entry_charge, PageInfo.charge, inherited.refs_of_taken (alsoAtPage ▸ taken)] at fits
    dsimp only at fits
    omega

/-- Where a child stops, its parent cannot be inherited. -/
theorem unaffordable (inherited : InheritedBelow low base before source place.val child ram)
    (backed : ∀ place, ∀ mapping ∈ source place, ∃ page : Fin pageCount,
      mapping.pa = .ofPage page ∧ base.Taken page)
    (stuck : BuiltOver.Uninheritable (base.charge owner child.refs) (source place)) :
    Unaffordable base source := by
  have fewer {places : Finset (Fin processPageCount)} (listed : place ∈ places) :
      (places.filter fun other => other.val < place.val).card < places.card :=
    Finset.card_lt_card (Finset.filter_ssubset.mpr ⟨place, listed, Nat.lt_irrefl _⟩)
  cases stuck with
  | full found writable full =>
      have listed : place ∈ copiedPlaces source := by simp [copiedPlaces, found, writable]
      have new (other : Fin processPageCount) (leaf : Leaf) (mapped : child.leaf other = some leaf)
          (untaken : ¬base.Taken leaf.page) :
          other ∈ (copiedPlaces source).filter fun other => other.val < place.val := by
        refine Finset.mem_filter.mpr ⟨?_, inherited.lt_of_leaf mapped⟩
        rcases inherited.copied_or_shared mapped with ⟨copied, -⟩ | ⟨shared, -⟩
        · exact copied
        · obtain ⟨mapping, found, -, -, atPage⟩ := (Finset.mem_filter.mp shared).2
          obtain ⟨page, alsoAtPage, taken⟩ := backed other mapping found
          rw [atPage, PhysAddr.ofPage_inj] at alsoAtPage
          exact absurd (alsoAtPage ▸ taken) untaken
      have used := SpaceView.freePages_le_of_new new owner
      have strict := fewer listed
      exact .inl (by omega)
  | @overflow mapping page found notWritable readOnly atPage overflow =>
      have listed : place ∈ sharedPlaces source page := by
        simp [sharedPlaces, found, notWritable, readOnly, atPage]
      obtain ⟨other, alsoAtPage, taken⟩ := backed place mapping found
      rw [atPage, PhysAddr.ofPage_inj] at alsoAtPage
      have few := inherited.refs_le_of_taken (alsoAtPage ▸ taken)
      have strict := fewer listed
      rw [Ledger.entry_charge, PageInfo.charge] at overflow
      exact .inr ⟨page, ⟨place, listed⟩, by dsimp only at overflow; omega⟩

end InheritedBelow

/-! ## Children of views -/

section Views

variable {parent child : SpaceView} {leaf : Leaf}

theorem SpaceView.sharedPlaces_subset (view : SpaceView) (page : Fin pageCount) :
    sharedPlaces (fun place => (view.leaf place).map Leaf.mapping) page ⊆ view.placesOf page := by
  intro place member
  obtain ⟨mapping, isLeaf, -, -, atPage⟩ := (Finset.mem_filter.mp member).2
  obtain ⟨leaf, mapped, rfl⟩ := Option.map_eq_some_iff.mp isLeaf
  rw [Leaf.mapping_pa, PhysAddr.ofPage_inj] at atPage
  exact atPage ▸ SpaceView.mem_placesOf_of_leaf mapped

theorem SpaceView.copiedPlaces_subset (view : SpaceView) :
    copiedPlaces (fun place => (view.leaf place).map Leaf.mapping) ⊆ view.mapped := by
  intro place member
  obtain ⟨mapping, isLeaf, -⟩ := (Finset.mem_filter.mp member).2
  obtain ⟨leaf, mapped, -⟩ := Option.map_eq_some_iff.mp isLeaf
  rw [SpaceView.mem_mapped, mapped]
  rfl

theorem Inherited.eq_of_readOnly {before now : Ram} {source : Option Leaf} {leaf : Leaf}
    (inherited : Inherited (source.map Leaf.mapping) before now (some leaf))
    (readOnly : leaf.writable = false) : source = some leaf := by
  cases source with
  | none => cases inherited
  | some original =>
      simp only [Inherited, Option.map_some, Leaf.mapping_flags, Leaf.isUserWritable_flags,
        Leaf.isUserReadOnly_flags, Leaf.mapping_pa, PhysAddr.ofPage_inj] at inherited
      rcases original with ⟨page, writable⟩
      cases writable with
      | true =>
          rcases inherited with ⟨_, copy, _, same, _⟩
          obtain rfl := Option.some.inj same
          cases readOnly
      | false =>
          rcases inherited with ⟨_, rfl, same⟩
          exact same.symm

theorem InheritedBelow.leaf_of_taken
    (inherited : InheritedBelow low base before (fun place => (parent.leaf place).map Leaf.mapping)
      processPageCount child ram)
    (mapped : child.leaf place = some leaf) (taken : base.Taken leaf.page) :
    leaf.writable = false ∧ parent.leaf place = some leaf := by
  have readOnly : leaf.writable = false := by
    by_contra writable
    exact inherited.built.openedNew place leaf mapped (Bool.not_eq_false _ ▸ writable) taken
  have here := inherited.below place place.isLt
  rw [mapped] at here
  exact ⟨readOnly, here.eq_of_readOnly readOnly⟩

theorem InheritedBelow.single
    (inherited : InheritedBelow low base before (fun place => (parent.leaf place).map Leaf.mapping)
      processPageCount child ram)
    (single : ∀ page, parent.refs page ≤ 1) (page : Fin pageCount) : child.refs page ≤ 1 := by
  by_cases taken : base.Taken page
  · have notRoot : page ≠ child.root := fun same => inherited.built.rootNew (same ▸ taken)
    have notTable : page ≠ child.table := fun same => inherited.built.tableNew (same ▸ taken)
    have places : child.placesOf page ⊆ parent.placesOf page := by
      intro place member
      obtain ⟨leaf, mapped, rfl⟩ := Option.map_eq_some_iff.mp (SpaceView.mem_placesOf.mp member)
      exact SpaceView.mem_placesOf_of_leaf (inherited.leaf_of_taken mapped taken).2
    have few := Finset.card_le_card places
    have once := single page
    rw [SpaceView.refs_apply] at once
    rw [SpaceView.refs_apply, if_neg notRoot, if_neg notTable]
    omega
  · exact inherited.built.single page taken

/-- A page that was taken and belongs to a child is mapped for reading by its parent. -/
theorem InheritedBelow.shared
    (inherited : InheritedBelow low base before (fun place => (parent.leaf place).map Leaf.mapping)
      processPageCount child ram)
    (taken : base.Taken page) (referenced : 0 < child.refs page) :
    ∃ place, parent.leaf place = some ⟨page, false⟩ := by
  rcases SpaceView.refs_pos_iff.mp referenced with rfl | rfl | ⟨place, leaf, mapped, rfl⟩
  · exact absurd taken inherited.built.rootNew
  · exact absurd taken inherited.built.tableNew
  · obtain ⟨readOnly, same⟩ := inherited.leaf_of_taken mapped taken
    exact ⟨place, by rw [same, ← readOnly]⟩

end Views

namespace AddressSpace

variable {parent : AddressSpace} {source : Fin processPageCount → Option Mapping}

theorem ensures_inheritPages (tidy : base.Tidy) (owned : owner ≠ .free)
    (inheritable : Inheritable base before parent source)
    (built : BuiltOver low base before view ram)
    (vacant : ∀ place, view.leaf place = none) :
    (parent.inheritPages (view.space owner)).Ensures ⟨base.charge owner view.refs, ram⟩
      (fun _ memory => ∃ child next, child.root = view.root ∧
        memory = ⟨base.charge owner child.refs, next⟩ ∧
        InheritedBelow low base before source processPageCount child next)
      fun cause memory => (∃ reason, cause = .alloc reason) ∧ Unaffordable base source ∧
        ∃ child next, child.root = view.root ∧
          memory = ⟨base.charge owner child.refs, next⟩ ∧ BuiltOver low base before child next := by
  have nothing : InheritedBelow low base before source 0 view ram :=
    ⟨built, fun _ impossible => absurd impossible (Nat.not_lt_zero _), fun place _ => vacant place⟩
  rw [inheritPages]
  refine (ensures_forPlaces (fun bound memory => ∃ child next, child.root = view.root ∧
    memory = ⟨base.charge owner child.refs, next⟩ ∧
      InheritedBelow low base before source bound child next)
    ⟨view, ram, rfl, rfl, nothing⟩ ?_).mono
    (fun _ _ held => held) fun _ _ held => held
  rintro place _ ⟨current, now, sameRoot, rfl, inherited⟩
  have sameSpace : view.space owner = current.space owner := by
    rw [SpaceView.space, SpaceView.space, sameRoot]
  rw [sameSpace]
  refine (inherited.built.ensures_inheritPage tidy owned (inherited.above place (Nat.le_refl _))
    (inheritable.reads now inherited.built.kept place) (inheritable.backed place)).mono ?_ ?_
  · rintro _ _ ⟨child, next, rfl, extended, here⟩
    exact ⟨child, next, extended.root_eq.trans sameRoot, rfl, inherited.extend extended here⟩
  · rintro _ _ ⟨isAlloc, stuck, rfl⟩
    exact ⟨isAlloc, inherited.unaffordable inheritable.backed stuck, current, now, sameRoot, rfl,
      inherited.built⟩

/-- The copy of a space inherits all that its parent maps; a refusal leaves no trace in the ledger
or in the pages that were taken. -/
theorem ensures_duplicate_over (tidy : base.Tidy) {kernel : AddressSpace}
    (lends : Lends base ram kernel low) (inheritable : Inheritable base ram parent source)
    (pid : Pid) :
    (parent.duplicate kernel pid).Ensures ⟨base, ram⟩
      (fun space memory => ∃ child next, space = child.space (.process pid) ∧
        memory = ⟨base.charge (.process pid) child.refs, next⟩ ∧
        InheritedBelow low base ram source processPageCount child next)
      fun cause memory => (∃ reason, cause = .alloc reason) ∧ Unaffordable base source ∧
        ∃ next, memory = ⟨base, next⟩ ∧ ∀ page, base.Taken page → Ram.SamePage ram next page := by
  have owned : Owner.process pid ≠ .free := by simp
  simp only [duplicate, ensures_bind, ensures_onRefusal]
  apply (ensures_ofTemplate_over tidy lends pid).mono
  · rintro _ _ ⟨view, first, rfl, blank, rfl, built⟩
    apply (ensures_inheritPages tidy owned inheritable built blank.vacant).mono
    · rintro _ _ ⟨child, next, sameRoot, rfl, inherited⟩
      refine ensures_pure.mpr ⟨child, next, ?_, rfl, inherited⟩
      rw [SpaceView.space, SpaceView.space, sameRoot]
    · rintro _ _ ⟨isAlloc, tooLarge, child, next, sameRoot, rfl, partly⟩
      have sameSpace : view.space (.process pid) = child.space (.process pid) := by
        rw [SpaceView.space, SpaceView.space, sameRoot]
      rw [sameSpace]
      apply (ensures_of_eq_ok (partly.stands.release_eq_ok tidy)).mpr
      exact ⟨isAlloc, tooLarge, next, rfl, partly.kept⟩
  · rintro _ _ ⟨rfl, short, next, rfl, kept⟩
    exact ⟨⟨_, rfl⟩, .inl (by omega), next, rfl, kept⟩

/-- The copy of a space beside the kernel's own space. -/
theorem ensures_duplicate (tidy : base.Tidy) {kernelRoot kernelTable : Fin pageCount}
    {kernelOwner : Owner} (kernel : ram.Spans kernelRoot kernelTable kernelWord)
    (kernelRootTaken : base.Taken kernelRoot) (kernelTableTaken : base.Taken kernelTable)
    (inheritable : Inheritable base ram parent source) (pid : Pid) :
    (parent.duplicate ⟨⟨.ofPage kernelRoot⟩, kernelOwner⟩ pid).Ensures ⟨base, ram⟩
      (fun space memory => ∃ child next, space = child.space (.process pid) ∧
        memory = ⟨base.charge (.process pid) child.refs, next⟩ ∧
        InheritedBelow kernelWord base ram source processPageCount child next)
      fun cause memory => (∃ reason, cause = .alloc reason) ∧ Unaffordable base source ∧
        ∃ next, memory = ⟨base, next⟩ ∧ ∀ page, base.Taken page → Ram.SamePage ram next page :=
  ensures_duplicate_over tidy
    (lends_kernelWord kernel kernelRootTaken kernelTableTaken kernelOwner) inheritable pid

end AddressSpace

end PagingKernel
