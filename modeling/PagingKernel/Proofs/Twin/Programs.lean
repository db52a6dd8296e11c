import PagingKernel.Proofs.Program.Placed
import PagingKernel.Proofs.Twin.Spaces

/-!
# Programs placed in two memories

Every page that a program is placed in was cleared before, so that its bytes are
those of the program and zeros, whatever memory held.
-/

namespace PagingKernel

open PageTable PagingKernel.Action

/-- Spaces that are filled alike in two memories, with new pages at places of a set. -/
structure TwinPlacing (base : Ledger) (beforeLeft beforeRight : Ram)
    (met : Finset (Fin processPageCount)) (view : SpaceView) (left right : Ram) : Prop where
  onLeft : Placing kernelWord base beforeLeft met view left
  onRight : Placing kernelWord base beforeRight met view right
  leaves : ∀ place leaf, view.leaf place = some leaf → Ram.SamePage left right leaf.page

/-- Two memories in which the same space has been filled alike. -/
def TwinPlaced (base : Ledger) (beforeLeft beforeRight : Ram)
    (met : Finset (Fin processPageCount)) (owner : Owner) (space : AddressSpace)
    (left right : Memory) : Prop :=
  ∃ view leftRam rightRam, space = view.space owner ∧
    left = ⟨base.charge owner view.refs, leftRam⟩ ∧
    right = ⟨base.charge owner view.refs, rightRam⟩ ∧
    TwinPlacing base beforeLeft beforeRight met view leftRam rightRam

variable {base : Ledger} {beforeLeft beforeRight left right : Ram}
  {met : Finset (Fin processPageCount)} {view : SpaceView} {owner : Owner}
  {place : Fin processPageCount} {space : AddressSpace} {leftMemory rightMemory : Memory}

namespace TwinPlacing

theorem twinBuilt (twin : TwinPlacing base beforeLeft beforeRight met view left right) :
    TwinBuilt base beforeLeft beforeRight view left right :=
  ⟨twin.onLeft.built, twin.onRight.built, fun place leaf mapped _ => twin.leaves place leaf mapped⟩

/-- A leaf that is set to a new page is set alike. -/
theorem setLeaf {leaf : Leaf} {leftNext rightNext : Ram}
    (twin : TwinPlacing base beforeLeft beforeRight met view left right)
    (next : TwinBuilt base beforeLeft beforeRight (view.setLeaf place leaf) leftNext rightNext)
    (new : ¬base.Taken leaf.page) (member : place ∈ met) :
    TwinPlacing base beforeLeft beforeRight met (view.setLeaf place leaf) leftNext rightNext where
  onLeft := twin.onLeft.setLeaf next.onLeft new member
  onRight := twin.onRight.setLeaf next.onRight new member
  leaves other found mapped := by
    refine next.leaves other found mapped ?_
    exact (twin.onLeft.setLeaf next.onLeft new member).leavesNew other found mapped

end TwinPlacing

namespace Segment

/-- The same page backs a place on both sides, and holds the same. -/
theorem agree_backPage (segment : Segment)
    (twin : TwinPlacing base beforeLeft beforeRight met view left right) (tidy : base.Tidy)
    (owned : owner ≠ .free) (member : place ∈ met) :
    Agree (segment.backPage (view.space owner) (placeNumber place))
      (segment.backPage (view.space owner) (placeNumber place))
      ⟨base.charge owner view.refs, left⟩ ⟨base.charge owner view.refs, right⟩
      (fun pa leftMemory rightMemory => ∃ child leftNext rightNext leaf,
        pa = .ofPage leaf.page ∧ child.root = view.root ∧
        leftMemory = ⟨base.charge owner child.refs, leftNext⟩ ∧
        rightMemory = ⟨base.charge owner child.refs, rightNext⟩ ∧
        TwinPlacing base beforeLeft beforeRight met child leftNext rightNext ∧
        child.leaf place = some leaf)
      fun _ => TwinPlaced base beforeLeft beforeRight met owner (view.space owner) := by
  refine agree_peek_bind
    (AddressSpace.lookup_eq (twin.onLeft.built.stands.lookup_placeNumber place))
    (AddressSpace.lookup_eq (twin.onRight.built.stands.lookup_placeNumber place)) ?_
  cases found : view.leaf place with
  | some leaf =>
      have new := twin.onLeft.leavesNew place leaf found
      simp only [Option.map_some, Leaf.mapping_flags, Leaf.flags_writable, Leaf.mapping_pa]
      by_cases opening : (segment.writable && !leaf.writable) = true
      · have vacant : ∀ mapped ∈ view.leaf place, mapped.page = leaf.page := by simp [found]
        have openedLeft := twin.onLeft.built.stands.map_eq_ok (base.charge owner view.refs) owner
          place ⟨leaf.page, true⟩ vacant
        have openedRight := twin.onRight.built.stands.map_eq_ok (base.charge owner view.refs) owner
          place ⟨leaf.page, true⟩ vacant
        have opened := twin.twinBuilt.setLeaf (twin.onLeft.built.openLeaf found new)
          (twin.onRight.built.openLeaf found new)
          (fun _ => (twin.leaves place leaf found).setEntry _ (placeNumber_lt place) _)
          fun _ _ _ _ same => same.setEntry _ (placeNumber_lt place) _
        rw [if_pos opening]
        refine agree_bind (agree_of_eq_ok openedLeft openedRight (agree_pure ?_))
        refine ⟨view.setLeaf place ⟨leaf.page, true⟩, _, _, ⟨leaf.page, true⟩, rfl, rfl, ?_, ?_,
          twin.setLeaf opened new member, SpaceView.leaf_setLeaf_self⟩
        all_goals rw [SpaceView.refs_setLeaf_of_page found ⟨leaf.page, true⟩ rfl]
      · rw [if_neg opening]
        exact agree_pure ⟨view, left, right, leaf, rfl, rfl, rfl, rfl, twin, found⟩
  | none =>
      refine (twin.twinBuilt.agree_mapFresh tidy owned found segment.writable).mono ?_ ?_
      · rintro _ _ _ ⟨page, leftNext, rightNext, rfl, new, rfl, rfl, next⟩
        exact ⟨view.setLeaf place ⟨page, segment.writable⟩, leftNext, rightNext,
          ⟨page, segment.writable⟩, rfl, rfl, rfl, rfl, twin.setLeaf next new member,
          SpaceView.leaf_setLeaf_self⟩
      · rintro _ _ _ ⟨rfl, rfl⟩
        exact ⟨view, left, right, rfl, rfl, rfl, twin⟩

/-- A page of the segment is placed alike. -/
theorem agree_placePage (segment : Segment)
    (twin : TwinPlacing base beforeLeft beforeRight met view left right) (tidy : base.Tidy)
    (owned : owner ≠ .free) (member : place ∈ met) :
    Agree (segment.placePage (view.space owner) (placeNumber place))
      (segment.placePage (view.space owner) (placeNumber place))
      ⟨base.charge owner view.refs, left⟩ ⟨base.charge owner view.refs, right⟩
      (fun _ => TwinPlaced base beforeLeft beforeRight met owner (view.space owner))
      fun _ => TwinPlaced base beforeLeft beforeRight met owner (view.space owner) := by
  refine agree_bind ((segment.agree_backPage twin tidy owned member).mono ?_
    fun _ _ _ held => held)
  rintro _ _ _ ⟨child, leftNext, rightNext, leaf, rfl, sameRoot, rfl, rfl, next, mapped⟩
  obtain ⟨start, count, source, inside, filled, -⟩ :=
    segment.exists_fillPage_eq_ok (placeNumber place) leaf.page
  refine agree_of_eq_ok (filled _ _) (filled _ _) ⟨child, _, _, ?_, rfl, rfl,
    next.onLeft.write mapped fun other apart => Ram.samePage_overwrite_of_ne inside apart,
    next.onRight.write mapped fun other apart => Ram.samePage_overwrite_of_ne inside apart,
    fun other found isLeaf => (next.leaves other found isLeaf).overwrite inside source⟩
  rw [SpaceView.space, SpaceView.space, sameRoot]

/-- A valid segment is placed alike. -/
theorem agree_place {segment : Segment} (valid : segment.isValid = true)
    (meets : ∀ place, segment.Meets place → place ≠ stackPlace → place ∈ met)
    (placed : TwinPlaced base beforeLeft beforeRight met owner space leftMemory rightMemory)
    (tidy : base.Tidy) (owned : owner ≠ .free) :
    Agree (segment.place space) (segment.place space) leftMemory rightMemory
      (fun _ => TwinPlaced base beforeLeft beforeRight met owner space)
      fun _ => TwinPlaced base beforeLeft beforeRight met owner space := by
  refine agree_forRange (fun _ => TwinPlaced base beforeLeft beforeRight met owner space) placed ?_
  rintro number _ _ above below ⟨view, leftRam, rightRam, rfl, rfl, rfl, twin⟩
  obtain ⟨place, rfl, met, notStack⟩ := page_below_stack valid above below
  exact segment.agree_placePage twin tidy owned (meets place met notStack)

end Segment

/-- An image is placed alike, or refused alike. -/
theorem ProgramImage.agree_place (image : ProgramImage)
    (twin : TwinBuilt base beforeLeft beforeRight view left right)
    (vacant : ∀ place, view.leaf place = none) (tidy : base.Tidy) (owned : owner ≠ .free) :
    Agree (image.place (view.space owner)) (image.place (view.space owner))
      ⟨base.charge owner view.refs, left⟩ ⟨base.charge owner view.refs, right⟩
      (fun _ => TwinPlaced base beforeLeft beforeRight (image.footprint.erase stackPlace) owner
        (view.space owner))
      fun _ => TwinPlaced base beforeLeft beforeRight (image.footprint.erase stackPlace) owner
        (view.space owner) := by
  have start : TwinPlaced base beforeLeft beforeRight (image.footprint.erase stackPlace) owner
      (view.space owner) ⟨base.charge owner view.refs, left⟩
      ⟨base.charge owner view.refs, right⟩ :=
    ⟨view, left, right, rfl, rfl, rfl, .of_vacant twin.onLeft vacant,
      .of_vacant twin.onRight vacant, fun place leaf mapped => by
        rw [vacant place] at mapped
        cases mapped⟩
  refine agree_bind ?_
  cases accepted : image.validate with
  | error cause => exact agree_ofExcept_error start
  | ok =>
      obtain ⟨valid, -⟩ := ProgramImage.validate_eq_ok_iff.mp accepted
      refine agree_ofExcept_ok (agree_bind (agree_mapCause ?_))
      refine (agree_forEach (fun _ => TwinPlaced base beforeLeft beforeRight
        (image.footprint.erase stackPlace) owner (view.space owner)) start ?_).mono
        (fun _ _ _ placed => agree_pure placed) fun _ _ _ held => held
      rintro earlier segment later _ _ split placed
      have member : segment ∈ image.segments := by
        rw [split]
        exact List.mem_append_right _ List.mem_cons_self
      refine Segment.agree_place (valid segment member) ?_ placed tidy owned
      intro place meets notStack
      exact Finset.mem_erase.mpr
        ⟨notStack, ProgramImage.mem_footprint.mpr ⟨segment, member, meets⟩⟩

end PagingKernel
