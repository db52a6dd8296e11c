import PagingKernel.Proofs.Action.Agree
import PagingKernel.Proofs.AddressSpace.Duplicate
import PagingKernel.Proofs.Twin.Memory

/-!
# Spaces built in two memories

The same construction in two memories that are alike takes the same pages and
fills them with the same bytes, whatever those pages held before.
`TwinBuilt` is the invariant: the space stands in both memories, and its new
leaves hold the same.
-/

namespace PagingKernel

open PageTable PagingKernel.Action

namespace Ram

variable {left right : Ram} {page other : Fin pageCount}

theorem SamePage.clear (same : SamePage left right page) (other : Fin pageCount) :
    SamePage (left.clear other) (right.clear other) page :=
  same.overwrite (by simp) _

theorem SamePage.setEntry (same : SamePage left right page) (other : Fin pageCount) {index : Nat}
    (inside : index < entryCount) (word : UInt32) :
    SamePage (left.setEntry other index word) (right.setEntry other index word) page :=
  same.overwrite (entry_inside inside) _

/-- What pages hold after the same action follows from what they held before. -/
theorem SamePage.after {leftNext rightNext : Ram} (same : SamePage left right page)
    (onLeft : SamePage left leftNext page) (onRight : SamePage right rightNext page) :
    SamePage leftNext rightNext page :=
  (onLeft.symm.trans same).trans onRight

end Ram

/-- The process range is gone through on both sides with a relation that holds before each place. -/
theorem Action.agree_forPlaces {σ ε : Type} {act : Nat → Action σ ε Unit}
    {refused : ε → σ → σ → Prop} (relation : Nat → σ → σ → Prop) {here there : σ}
    (initial : relation 0 here there)
    (step : ∀ (place : Fin processPageCount) stop last, relation place.val stop last →
      Agree (act (placeNumber place)) (act (placeNumber place)) stop last
        (fun _ => relation (place.val + 1)) refused) :
    Agree (forRange firstProcessPage processPageCount act)
      (forRange firstProcessPage processPageCount act) here there
      (fun _ => relation processPageCount) refused := by
  have start_eq : relation (firstProcessPage - firstProcessPage) here there := by
    rw [Nat.sub_self]
    exact initial
  refine (agree_forRange (fun number => relation (number - firstProcessPage)) start_eq ?_).mono
    ?_ fun _ _ _ held => held
  · intro number stop last above below held
    obtain ⟨place, rfl⟩ := Nat.exists_eq_add_of_le above
    have inside : place < processPageCount := by omega
    have advanced := step ⟨place, inside⟩ stop last
      (by simpa only [Nat.add_sub_cancel_left] using held)
    rw [show firstProcessPage + place + 1 - firstProcessPage = place + 1 by omega]
    exact advanced
  · intro _ stop last held
    simpa only [Nat.add_sub_cancel_left] using held

/-- The same space stands in two memories, built from pages that the ledger `base` had free. -/
structure TwinBuilt (base : Ledger) (beforeLeft beforeRight : Ram) (view : SpaceView)
    (left right : Ram) : Prop where
  onLeft : Built base beforeLeft view left
  onRight : Built base beforeRight view right
  leaves : ∀ place leaf, view.leaf place = some leaf → ¬base.Taken leaf.page →
    Ram.SamePage left right leaf.page

/-- Both memories are back at the ledger `base`, and keep what its pages held. -/
def TwinUndone (base : Ledger) (beforeLeft beforeRight : Ram) (left right : Memory) : Prop :=
  ∃ leftRam rightRam, left = ⟨base, leftRam⟩ ∧ right = ⟨base, rightRam⟩ ∧
    ∀ page, base.Taken page → Ram.SamePage beforeLeft leftRam page ∧
      Ram.SamePage beforeRight rightRam page

variable {base boot : Ledger} {beforeLeft beforeRight left right : Ram} {view : SpaceView}
  {owner : Owner} {place : Fin processPageCount} {page : Fin pageCount}

theorem TwinUndone.refl (base : Ledger) (left right : Ram) :
    TwinUndone base left right ⟨base, left⟩ ⟨base, right⟩ :=
  ⟨left, right, rfl, rfl, fun page _ => ⟨Ram.SamePage.refl left page, Ram.SamePage.refl right page⟩⟩

/-- Memories that were alike are alike again once a construction is undone. -/
theorem TwinUndone.alike {leftMemory rightMemory : Memory}
    (undone : TwinUndone base beforeLeft beforeRight leftMemory rightMemory)
    (alike : Memory.Alike boot ⟨base, beforeLeft⟩ ⟨base, beforeRight⟩) :
    Memory.Alike boot leftMemory rightMemory := by
  obtain ⟨leftRam, rightRam, rfl, rfl, kept⟩ := undone
  exact ⟨rfl, fun page taken new =>
    (alike.pages page taken new).after (kept page taken).1 (kept page taken).2⟩

theorem SpaceView.Stands.agree_mapFresh {ledger : Ledger} (onLeft : view.Stands left)
    (onRight : view.Stands right) (tidy : ledger.Tidy) (owned : owner ≠ .free)
    (rootTaken : ledger.Taken view.root) (tableTaken : ledger.Taken view.table)
    (vacant : view.leaf place = none) (writable : Bool) :
    Agree ((view.space owner).mapFresh (.ofPage (placeNumber place)) (userFlags writable))
      ((view.space owner).mapFresh (.ofPage (placeNumber place)) (userFlags writable))
      ⟨ledger, left⟩ ⟨ledger, right⟩
      (fun pa leftMemory rightMemory => ∃ page : Fin pageCount, pa = .ofPage page ∧
        Memory.NextFree ledger page ∧
        leftMemory = ⟨ledger.charge owner (Pi.single page 1),
          (left.clear page).setEntry view.table (placeNumber place) (Leaf.word ⟨page, writable⟩)⟩ ∧
        rightMemory = ⟨ledger.charge owner (Pi.single page 1),
          (right.clear page).setEntry view.table (placeNumber place)
            (Leaf.word ⟨page, writable⟩)⟩)
      fun _ leftMemory rightMemory => leftMemory = ⟨ledger, left⟩ ∧
        rightMemory = ⟨ledger, right⟩ := by
  refine agree_of_ensures
    (onLeft.ensures_mapFresh tidy owned rootTaken tableTaken vacant writable)
    (onRight.ensures_mapFresh tidy owned rootTaken tableTaken vacant writable) ?_ ?_ ?_ ?_
  · rintro _ _ _ _ ⟨page, rfl, nextFree, rfl⟩ ⟨other, rfl, alsoNextFree, rfl⟩
    obtain rfl := nextFree.unique alsoNextFree
    exact ⟨rfl, page, rfl, nextFree, rfl, rfl⟩
  · rintro _ _ _ _ ⟨reason, rfl, exhausted, rfl⟩ ⟨other, rfl, alsoExhausted, rfl⟩
    rw [exhausted.cause_eq, alsoExhausted.cause_eq]
    exact ⟨rfl, rfl, rfl⟩
  · rintro _ _ _ _ ⟨page, -, nextFree, -⟩ ⟨reason, -, exhausted, -⟩
    exact nextFree.not_exhausted exhausted
  · rintro _ _ _ _ ⟨reason, -, exhausted, -⟩ ⟨page, -, nextFree, -⟩
    exact nextFree.not_exhausted exhausted

namespace TwinBuilt

/-- Memories that were alike are alike when the space stands in them. -/
theorem alike (twin : TwinBuilt base beforeLeft beforeRight view left right)
    (alike : Memory.Alike boot ⟨base, beforeLeft⟩ ⟨base, beforeRight⟩) (owner : Owner) :
    Memory.Alike boot ⟨base.charge owner view.refs, left⟩ ⟨base.charge owner view.refs, right⟩ where
  ledger_eq := rfl
  pages page taken new := by
    by_cases before : base.Taken page
    · exact (alike.pages page before new).after (twin.onLeft.kept page before)
        (twin.onRight.kept page before)
    · have referenced := (Ledger.taken_charge_iff.mp taken).resolve_left before
      rcases SpaceView.refs_pos_iff.mp referenced with rfl | rfl | ⟨place, leaf, mapped, rfl⟩
      · exact Ram.Spans.samePage_root twin.onLeft.stands twin.onRight.stands
      · exact Ram.Spans.samePage_table twin.onLeft.stands twin.onRight.stands
      · exact twin.leaves place leaf mapped before

theorem setLeaf {leaf : Leaf} {leftNext rightNext : Ram}
    (twin : TwinBuilt base beforeLeft beforeRight view left right)
    (onLeft : Built base beforeLeft (view.setLeaf place leaf) leftNext)
    (onRight : Built base beforeRight (view.setLeaf place leaf) rightNext)
    (here : ¬base.Taken leaf.page → Ram.SamePage leftNext rightNext leaf.page)
    (elsewhere : ∀ other found, other ≠ place → view.leaf other = some found →
      Ram.SamePage left right found.page → Ram.SamePage leftNext rightNext found.page) :
    TwinBuilt base beforeLeft beforeRight (view.setLeaf place leaf) leftNext rightNext where
  onLeft := onLeft
  onRight := onRight
  leaves other found mapped new := by
    rw [SpaceView.leaf_setLeaf] at mapped
    split at mapped
    · obtain rfl := Option.some.inj mapped
      exact here new
    · rename_i apart
      exact elsewhere other found apart mapped (twin.leaves other found mapped new)

/-- A construction goes on alike with a fresh page at a vacant place, unless no page is free. -/
theorem agree_mapFresh (twin : TwinBuilt base beforeLeft beforeRight view left right)
    (tidy : base.Tidy) (owned : owner ≠ .free) (vacant : view.leaf place = none)
    (writable : Bool) :
    Agree ((view.space owner).mapFresh (.ofPage (placeNumber place)) (userFlags writable))
      ((view.space owner).mapFresh (.ofPage (placeNumber place)) (userFlags writable))
      ⟨base.charge owner view.refs, left⟩ ⟨base.charge owner view.refs, right⟩
      (fun pa leftMemory rightMemory => ∃ (page : Fin pageCount) (leftNext rightNext : Ram),
        pa = .ofPage page ∧ ¬base.Taken page ∧
        leftMemory = ⟨base.charge owner (view.setLeaf place ⟨page, writable⟩).refs, leftNext⟩ ∧
        rightMemory = ⟨base.charge owner (view.setLeaf place ⟨page, writable⟩).refs, rightNext⟩ ∧
        TwinBuilt base beforeLeft beforeRight (view.setLeaf place ⟨page, writable⟩) leftNext
          rightNext)
      fun _ leftMemory rightMemory => leftMemory = ⟨base.charge owner view.refs, left⟩ ∧
        rightMemory = ⟨base.charge owner view.refs, right⟩ := by
  refine (SpaceView.Stands.agree_mapFresh twin.onLeft.stands twin.onRight.stands
    (tidy.charge owned _) owned (BuiltOver.root_taken view) (BuiltOver.table_taken view) vacant
    writable).mono ?_ fun _ _ _ held => held
  rintro _ _ _ ⟨page, rfl, nextFree, rfl, rfl⟩
  have new : ¬base.Taken page := fun taken => nextFree.untaken (taken.charge owner _)
  have inside := placeNumber_lt place
  refine ⟨page, _, _, rfl, new, ?_, ?_, twin.setLeaf
    (twin.onLeft.addLeaf ⟨page, writable⟩ nextFree.untaken vacant
      fun other apart => Ram.samePage_clear_of_ne apart)
    (twin.onRight.addLeaf ⟨page, writable⟩ nextFree.untaken vacant
      fun other apart => Ram.samePage_clear_of_ne apart) ?_ ?_⟩
  · rw [Ledger.charge_charge, SpaceView.refs_setLeaf vacant]
  · rw [Ledger.charge_charge, SpaceView.refs_setLeaf vacant]
  · exact fun _ => (Ram.samePage_clear_clear left right page).setEntry _ inside _
  · exact fun _ _ _ _ same => (same.clear page).setEntry _ inside _

/-! ## Copying a space -/

/-- Both sides go on from a space with more in it. -/
def Extends (base : Ledger) (beforeLeft beforeRight : Ram) (owner : Owner) (view : SpaceView)
    (place : Fin processPageCount) (left right : Memory) : Prop :=
  ∃ child leftRam rightRam, left = ⟨base.charge owner child.refs, leftRam⟩ ∧
    right = ⟨base.charge owner child.refs, rightRam⟩ ∧ child.root = view.root ∧
    (∀ other, other ≠ place → child.leaf other = view.leaf other) ∧
    TwinBuilt base beforeLeft beforeRight child leftRam rightRam

/-- Leaves stay the same on both sides if what was referred to is kept. -/
theorem extended {child : SpaceView} {leftNext rightNext : Ram}
    (twin : TwinBuilt base beforeLeft beforeRight view left right)
    (onLeft : BuiltOver.Extended kernelWord base beforeLeft view place left child leftNext)
    (onRight : BuiltOver.Extended kernelWord base beforeRight view place right child rightNext)
    (here : ∀ leaf, child.leaf place = some leaf → ¬base.Taken leaf.page →
      Ram.SamePage leftNext rightNext leaf.page) :
    TwinBuilt base beforeLeft beforeRight child leftNext rightNext where
  onLeft := onLeft.built
  onRight := onRight.built
  leaves other leaf mapped new := by
    by_cases atPlace : other = place
    · exact here leaf (atPlace ▸ mapped) new
    · rw [onLeft.others other atPlace] at mapped
      have notTable := SpaceView.leaf_page_ne_table
        (twin.onLeft.single _ twin.onLeft.tableNew) mapped
      have referenced := SpaceView.refs_leaf_pos mapped
      exact (twin.leaves other leaf mapped new).after (onLeft.kept _ notTable referenced)
        (onRight.kept _ notTable referenced)

theorem agree_copyWritable (twin : TwinBuilt base beforeLeft beforeRight view left right)
    (tidy : base.Tidy) (owned : owner ≠ .free) (vacant : view.leaf place = none)
    (taken : base.Taken page) (same : Ram.SamePage beforeLeft beforeRight page) :
    Agree ((view.space owner).copyWritable (.ofPage (placeNumber place)) (.ofPage page))
      ((view.space owner).copyWritable (.ofPage (placeNumber place)) (.ofPage page))
      ⟨base.charge owner view.refs, left⟩ ⟨base.charge owner view.refs, right⟩
      (fun _ => Extends base beforeLeft beforeRight owner view place)
      fun _ leftMemory rightMemory => leftMemory = ⟨base.charge owner view.refs, left⟩ ∧
        rightMemory = ⟨base.charge owner view.refs, right⟩ := by
  refine agree_of_ensures (twin.onLeft.ensures_copyWritable tidy owned vacant taken)
    (twin.onRight.ensures_copyWritable tidy owned vacant taken) ?_ ?_ ?_ ?_
  · rintro _ _ _ _ ⟨copy, leftNext, nextFree, rfl, onLeft, leftBytes⟩
      ⟨other, rightNext, alsoNextFree, rfl, onRight, rightBytes⟩
    obtain rfl := nextFree.unique alsoNextFree
    refine ⟨rfl, _, leftNext, rightNext, rfl, rfl, rfl, onLeft.others,
      twin.extended onLeft onRight fun leaf mapped _ => ?_⟩
    rw [SpaceView.leaf_setLeaf_self] at mapped
    obtain rfl := Option.some.inj mapped
    intro offset inside
    rw [leftBytes offset inside, rightBytes offset inside, same offset inside]
  · rintro _ _ _ _ ⟨⟨reason, rfl, exhausted⟩, rfl⟩ ⟨⟨other, rfl, alsoExhausted⟩, rfl⟩
    rw [exhausted.cause_eq, alsoExhausted.cause_eq]
    exact ⟨rfl, rfl, rfl⟩
  · rintro _ _ _ _ ⟨copy, _, nextFree, -⟩ ⟨⟨reason, -, exhausted⟩, -⟩
    exact nextFree.not_exhausted exhausted
  · rintro _ _ _ _ ⟨⟨reason, -, exhausted⟩, -⟩ ⟨copy, _, nextFree, -⟩
    exact nextFree.not_exhausted exhausted

theorem agree_shareReadOnly (twin : TwinBuilt base beforeLeft beforeRight view left right)
    (vacant : view.leaf place = none) (taken : base.Taken page) :
    Agree ((view.space owner).shareReadOnly (.ofPage (placeNumber place)) (.ofPage page))
      ((view.space owner).shareReadOnly (.ofPage (placeNumber place)) (.ofPage page))
      ⟨base.charge owner view.refs, left⟩ ⟨base.charge owner view.refs, right⟩
      (fun _ => Extends base beforeLeft beforeRight owner view place)
      fun _ leftMemory rightMemory => leftMemory = ⟨base.charge owner view.refs, left⟩ ∧
        rightMemory = ⟨base.charge owner view.refs, right⟩ := by
  refine agree_of_ensures (twin.onLeft.ensures_shareReadOnly vacant taken)
    (twin.onRight.ensures_shareReadOnly vacant taken) ?_ ?_ ?_ ?_
  · rintro _ _ _ _ ⟨-, leftNext, rfl, onLeft⟩ ⟨-, rightNext, rfl, onRight⟩
    refine ⟨rfl, _, leftNext, rightNext, rfl, rfl, rfl, onLeft.others,
      twin.extended onLeft onRight fun leaf mapped new => ?_⟩
    rw [SpaceView.leaf_setLeaf_self] at mapped
    obtain rfl := Option.some.inj mapped
    exact absurd taken new
  · rintro _ _ _ _ ⟨⟨rfl, -⟩, rfl⟩ ⟨⟨rfl, -⟩, rfl⟩
    exact ⟨rfl, rfl, rfl⟩
  · rintro _ _ _ _ ⟨room, -⟩ ⟨⟨-, full⟩, -⟩
    omega
  · rintro _ _ _ _ ⟨⟨-, full⟩, -⟩ ⟨room, -⟩
    omega

theorem agree_inheritPage (twin : TwinBuilt base beforeLeft beforeRight view left right)
    (tidy : base.Tidy) (owned : owner ≠ .free) (vacant : view.leaf place = none)
    {parent : AddressSpace} {source : Option Mapping}
    (seenLeft : parent.dir.lookup left (.ofPage (placeNumber place)) = .ok source)
    (seenRight : parent.dir.lookup right (.ofPage (placeNumber place)) = .ok source)
    (backed : ∀ mapping ∈ source, ∃ page : Fin pageCount, mapping.pa = .ofPage page ∧
      base.Taken page ∧ Ram.SamePage beforeLeft beforeRight page) :
    Agree (parent.inheritPage (view.space owner) (placeNumber place))
      (parent.inheritPage (view.space owner) (placeNumber place))
      ⟨base.charge owner view.refs, left⟩ ⟨base.charge owner view.refs, right⟩
      (fun _ => Extends base beforeLeft beforeRight owner view place)
      fun _ leftMemory rightMemory => leftMemory = ⟨base.charge owner view.refs, left⟩ ∧
        rightMemory = ⟨base.charge owner view.refs, right⟩ := by
  have unchanged : Extends base beforeLeft beforeRight owner view place
      ⟨base.charge owner view.refs, left⟩ ⟨base.charge owner view.refs, right⟩ :=
    ⟨view, left, right, rfl, rfl, rfl, fun _ _ => rfl, twin⟩
  refine agree_peek_bind (AddressSpace.lookup_eq seenLeft) (AddressSpace.lookup_eq seenRight) ?_
  cases source with
  | none => exact agree_pure unchanged
  | some mapping =>
      rcases mapping with ⟨pa, flags⟩
      obtain ⟨page, rfl, taken, same⟩ := backed _ rfl
      dsimp only
      by_cases writable : flags.isUserWritable = true
      · rw [if_pos writable]
        exact twin.agree_copyWritable tidy owned vacant taken same
      · rw [if_neg writable]
        by_cases readOnly : flags.isUserReadOnly = true
        · rw [if_pos readOnly]
          exact twin.agree_shareReadOnly vacant taken
        · rw [if_neg readOnly]
          exact agree_pure unchanged

end TwinBuilt

namespace AddressSpace

open TwinBuilt

/-- A space with the same two new pages stands in two memories, or was undone in both. -/
theorem agree_ofTemplate (tidy : base.Tidy) {kernelRoot kernelTable : Fin pageCount}
    {kernelOwner : Owner} (kernelLeft : left.Spans kernelRoot kernelTable kernelWord)
    (kernelRight : right.Spans kernelRoot kernelTable kernelWord)
    (kernelRootTaken : base.Taken kernelRoot) (kernelTableTaken : base.Taken kernelTable)
    (pid : Pid) :
    Agree (ofTemplate ⟨⟨.ofPage kernelRoot⟩, kernelOwner⟩ pid)
      (ofTemplate ⟨⟨.ofPage kernelRoot⟩, kernelOwner⟩ pid) ⟨base, left⟩ ⟨base, right⟩
      (fun space leftMemory rightMemory => ∃ view leftNext rightNext,
        space = view.space (.process pid) ∧ (∀ place, view.leaf place = none) ∧
        leftMemory = ⟨base.charge (.process pid) view.refs, leftNext⟩ ∧
        rightMemory = ⟨base.charge (.process pid) view.refs, rightNext⟩ ∧
        TwinBuilt base left right view leftNext rightNext)
      fun _ => TwinUndone base left right := by
  refine agree_of_ensures
    (ensures_ofTemplate tidy kernelLeft kernelRootTaken kernelTableTaken pid)
    (ensures_ofTemplate tidy kernelRight kernelRootTaken kernelTableTaken pid) ?_ ?_ ?_ ?_
  · rintro _ _ _ _ ⟨view, leftNext, rfl, blank, rfl, onLeft⟩
      ⟨other, rightNext, rfl, alsoBlank, rfl, onRight⟩
    obtain rfl := blank.unique alsoBlank
    refine ⟨rfl, view, leftNext, rightNext, rfl, blank.vacant, rfl, rfl, onLeft, onRight, ?_⟩
    intro place leaf mapped
    rw [blank.vacant place] at mapped
    cases mapped
  · rintro _ _ _ _ ⟨rfl, -, leftNext, rfl, keptLeft⟩ ⟨rfl, -, rightNext, rfl, keptRight⟩
    exact ⟨rfl, leftNext, rightNext, rfl, rfl, fun page taken =>
      ⟨keptLeft page taken, keptRight page taken⟩⟩
  · rintro _ _ _ _ ⟨view, _, -, blank, -⟩ ⟨-, short, -⟩
    exact absurd blank.two_le_freePages (by omega)
  · rintro _ _ _ _ ⟨-, short, -⟩ ⟨view, _, -, blank, -⟩
    exact absurd blank.two_le_freePages (by omega)

theorem agree_release (twin : TwinBuilt base beforeLeft beforeRight view left right)
    (tidy : base.Tidy) {done : Unit → Memory → Memory → Prop}
    {refused : AddressSpaceError → Memory → Memory → Prop}
    (held : ∀ leftMemory rightMemory, TwinUndone base beforeLeft beforeRight leftMemory
      rightMemory → done () leftMemory rightMemory) :
    Agree (view.space owner).release (view.space owner).release
      ⟨base.charge owner view.refs, left⟩ ⟨base.charge owner view.refs, right⟩ done refused :=
  agree_of_eq_ok (twin.onLeft.stands.release_eq_ok tidy) (twin.onRight.stands.release_eq_ok tidy)
    (held _ _ ⟨left, right, rfl, rfl, fun page taken =>
      ⟨twin.onLeft.kept page taken, twin.onRight.kept page taken⟩⟩)

/-- A space is copied alike where the parent maps the same pages, and they hold the same. -/
theorem agree_duplicate (tidy : base.Tidy) {kernelRoot kernelTable : Fin pageCount}
    {kernelOwner : Owner} (kernelLeft : left.Spans kernelRoot kernelTable kernelWord)
    (kernelRight : right.Spans kernelRoot kernelTable kernelWord)
    (kernelRootTaken : base.Taken kernelRoot) (kernelTableTaken : base.Taken kernelTable)
    {parent : AddressSpace} {source : Fin processPageCount → Option Mapping}
    (onLeft : Inheritable base left parent source) (onRight : Inheritable base right parent source)
    (same : ∀ place, ∀ mapping ∈ source place, ∀ page : Fin pageCount, mapping.pa = .ofPage page →
      Ram.SamePage left right page) (pid : Pid) :
    Agree (parent.duplicate ⟨⟨.ofPage kernelRoot⟩, kernelOwner⟩ pid)
      (parent.duplicate ⟨⟨.ofPage kernelRoot⟩, kernelOwner⟩ pid) ⟨base, left⟩ ⟨base, right⟩
      (fun space leftMemory rightMemory => ∃ child leftNext rightNext,
        space = child.space (.process pid) ∧
        leftMemory = ⟨base.charge (.process pid) child.refs, leftNext⟩ ∧
        rightMemory = ⟨base.charge (.process pid) child.refs, rightNext⟩ ∧
        TwinBuilt base left right child leftNext rightNext)
      fun _ => TwinUndone base left right := by
  have owned : Owner.process pid ≠ .free := by simp
  refine agree_bind ((agree_ofTemplate tidy kernelLeft kernelRight kernelRootTaken
    kernelTableTaken pid).mono ?_ fun _ _ _ held => held)
  rintro _ _ _ ⟨view, leftFirst, rightFirst, rfl, vacant, rfl, rfl, twin⟩
  refine agree_bind (agree_onRefusal ?_)
  refine (agree_forPlaces (fun bound leftMemory rightMemory => ∃ child leftRam rightRam,
      child.root = view.root ∧ leftMemory = ⟨base.charge (.process pid) child.refs, leftRam⟩ ∧
      rightMemory = ⟨base.charge (.process pid) child.refs, rightRam⟩ ∧
      (∀ place : Fin processPageCount, bound ≤ place.val → child.leaf place = none) ∧
      TwinBuilt base left right child leftRam rightRam)
    ⟨view, leftFirst, rightFirst, rfl, rfl, rfl, fun place _ => vacant place, twin⟩ ?_).mono
    ?_ fun _ _ _ held => held
  · rintro place _ _ ⟨current, leftNow, rightNow, sameRoot, rfl, rfl, above, now⟩
    have sameSpace : view.space (.process pid) = current.space (.process pid) := by
      rw [SpaceView.space, SpaceView.space, sameRoot]
    rw [sameSpace]
    refine (now.agree_inheritPage tidy owned (above place (Nat.le_refl _))
      (onLeft.reads leftNow now.onLeft.kept place) (onRight.reads rightNow now.onRight.kept place)
      fun mapping found => ?_).mono ?_ ?_
    · obtain ⟨page, atPage, taken⟩ := onLeft.backed place mapping found
      exact ⟨page, atPage, taken, same place mapping found page atPage⟩
    · rintro _ _ _ ⟨child, leftNext, rightNext, rfl, rfl, isRoot, others, next⟩
      refine ⟨child, leftNext, rightNext, isRoot.trans sameRoot, rfl, rfl, ?_, next⟩
      intro other beyond
      have apart : other ≠ place := by
        rintro rfl
        omega
      rw [others other apart]
      exact above other (by omega)
    · rintro _ _ _ ⟨rfl, rfl⟩
      exact agree_release now tidy fun _ _ undone => undone
  · rintro _ _ _ ⟨child, leftNext, rightNext, sameRoot, rfl, rfl, -, next⟩
    refine agree_pure ⟨child, leftNext, rightNext, ?_, rfl, rfl, next⟩
    rw [SpaceView.space, SpaceView.space, sameRoot]

end AddressSpace

end PagingKernel
