import PagingKernel.Proofs.AddressSpace.Rollback
import PagingKernel.Proofs.Program.Placed

/-!
# Programs in new spaces

A program that is loaded into a new space is all that the space maps.  Its
segments may overlap, start and end anywhere and be empty: a page is mapped if a
segment reaches into it, may be written to if one of those segments may, and
holds at each address the byte of the last segment that has data for it.

An image with a segment or an entry point out of place is refused before
anything is done.
-/

namespace PagingKernel

open PagingKernel.Action

/-! ## Acceptable images -/

/-- A segment lies in the process range below the stack page, and its data in it. -/
structure Segment.Fits (segment : Segment) : Prop where
  start_le : processStart ≤ segment.va.raw
  stop_le : segment.va.raw + segment.memSize ≤ processStack
  data_le : segment.data.size ≤ segment.memSize

/-- An address lies between the ends of a segment. -/
def Segment.Includes (segment : Segment) (va : VirtAddr) : Prop :=
  segment.va.raw ≤ va.raw ∧ va.raw < segment.va.raw + segment.memSize

namespace ProgramImage

/-- All segments of an image fit, and its entry point lies in one of them. -/
structure Acceptable (image : ProgramImage) : Prop where
  fits : ∀ segment ∈ image.segments, segment.Fits
  entry : ∃ segment ∈ image.segments, segment.Includes image.entry

/-- What is wrong with an image: its first segment that does not fit, or else its entry point. -/
inductive Rejects (image : ProgramImage) : LoadError → Prop
  | badSegment {earlier later : List Segment} {segment : Segment}
      (listed : image.segments = earlier ++ segment :: later)
      (fit : ∀ other ∈ earlier, other.Fits) (misfit : ¬segment.Fits) :
      Rejects image (.badSegment segment.va)
  | badEntry (fits : ∀ segment ∈ image.segments, segment.Fits)
      (outside : ∀ segment ∈ image.segments, ¬segment.Includes image.entry) :
      Rejects image (.badEntry image.entry)

end ProgramImage

theorem Segment.isValid_iff {segment : Segment} : segment.isValid = true ↔ segment.Fits := by
  simp only [isValid, Bool.and_eq_true, decide_eq_true_eq]
  exact ⟨fun held => ⟨held.1.1, held.1.2, held.2⟩,
    fun fits => ⟨⟨fits.start_le, fits.stop_le⟩, fits.data_le⟩⟩

theorem Segment.covers_iff {segment : Segment} {va : VirtAddr} :
    segment.covers va = true ↔ segment.Includes va := by
  simp only [covers, Bool.and_eq_true, decide_eq_true_eq]
  rfl

namespace ProgramImage

variable {image : ProgramImage}

theorem validate_eq_ok_iff_acceptable : image.validate = .ok () ↔ image.Acceptable := by
  rw [validate_eq_ok_iff]
  simp only [Segment.isValid_iff, Segment.covers_iff]
  exact ⟨fun ⟨fits, entry⟩ => ⟨fits, entry⟩, fun acceptable => ⟨acceptable.fits, acceptable.entry⟩⟩

theorem rejects_of_validate {cause : LoadError} (refused : image.validate = .error cause) :
    image.Rejects cause := by
  unfold validate at refused
  cases found : image.segments.find? fun segment => !segment.isValid with
  | some segment =>
      rw [found] at refused
      cases refused
      obtain ⟨misfit, earlier, later, listed, fit⟩ := List.find?_eq_some_iff_append.mp found
      simp only [Bool.not_eq_true', Bool.not_not] at misfit fit
      refine .badSegment listed (fun other member => Segment.isValid_iff.mp (fit other member)) ?_
      rw [← Segment.isValid_iff, misfit]
      decide
  | none =>
      rw [found] at refused
      cases covered : image.segments.any (·.covers image.entry) with
      | true =>
          rw [covered] at refused
          cases refused
      | false =>
          rw [covered] at refused
          cases refused
          refine .badEntry (fun segment member => Segment.isValid_iff.mp ?_) ?_
          · simpa using List.find?_eq_none.mp found segment member
          · intro segment member includes
            exact List.any_eq_false.mp covered segment member (Segment.covers_iff.mpr includes)

theorem Rejects.not_acceptable {cause : LoadError} (rejects : image.Rejects cause) :
    ¬image.Acceptable := by
  intro acceptable
  cases rejects with
  | badSegment listed _ misfit => exact misfit (acceptable.fits _ (by simp [listed]))
  | badEntry _ outside =>
      obtain ⟨segment, member, includes⟩ := acceptable.entry
      exact outside segment member includes

/-! ## What loading comes to -/

/-- The permissions of a page that some segment reaches into. -/
def flagsAt (image : ProgramImage) (number : Nat) : PageFlags :=
  if ∃ segment ∈ image.segments, segment.Touches number ∧ segment.writable = true then .userRW
  else .userRO

/-- A space maps an image, and nothing else in the process range, on new pages of its own. -/
structure HasLoaded (image : ProgramImage) (space : AddressSpace) (before after : Memory) :
    Prop where
  within : ∀ number ∈ image.touched, ∃ place, placeNumber place = number
  mapped : ∀ place, placeNumber place ∈ image.touched → ∃ page : Fin pageCount,
    space.lookup after (.ofPage (placeNumber place)) =
      .ok (some ⟨.ofPage page, image.flagsAt (placeNumber place)⟩) ∧
    ¬before.ledger.Taken page ∧ after.ledger.entry page = ⟨space.owner, 1⟩ ∧
    ∀ offset < pageSize, after.ram.pageByte page offset =
      image.byte (placeNumber place * pageSize + offset)
  unmapped : ∀ place, placeNumber place ∉ image.touched →
    space.lookup after (.ofPage (placeNumber place)) = .ok none
  apart : ∀ first second mapping other,
    space.lookup after (.ofPage (placeNumber first)) = .ok (some mapping) →
    space.lookup after (.ofPage (placeNumber second)) = .ok (some other) →
    mapping.pa = other.pa → first = second
  other_entry : ∀ page, before.ledger.Taken page ∨ ¬after.ledger.Taken page →
    after.ledger.entry page = before.ledger.entry page
  freePages_eq : after.ledger.freePages + image.touched.ncard = before.ledger.freePages

/-- An image is refused as it stands, or for want of memory, or else it is loaded. -/
structure LoadsExactly (image : ProgramImage) (space : AddressSpace) (before : Memory) : Prop where
  not_faulted : ∀ fault after, image.place space before ≠ .error (.faulted fault) after
  rejected : ¬image.Acceptable → ∃ cause, image.Rejects cause ∧
    image.place space before = .error (.refused cause) before
  starved : image.Acceptable → before.ledger.freePages < image.touched.ncard → ∃ after,
    image.place space before = .error (.refused (.space (.alloc .outOfMemory))) after
  loaded : image.Acceptable → image.touched.ncard ≤ before.ledger.freePages → ∃ after,
    image.place space before = .ok image.entry after ∧ image.HasLoaded space before after

theorem place_eq_error {cause : LoadError} (refused : image.validate = .error cause)
    (space : AddressSpace) (memory : Memory) :
    image.place space memory = .error (.refused cause) memory := by
  have ensured : (image.place space).Ensures memory (fun _ _ => False)
      fun reason stop => reason = cause ∧ stop = memory := by
    rw [place, ensures_bind, refused, ensures_ofExcept_error]
    exact ⟨rfl, rfl⟩
  rcases ensured.cases with ⟨_, _, _, impossible⟩ | ⟨_, _, ran, rfl, rfl⟩
  · exact impossible.elim
  · exact ran

end ProgramImage

/-! ## A space that was new -/

/-- A space without leaves refers to its root and its page table only. -/
theorem SpaceView.structural_of_refs {view : SpaceView} (vacant : ∀ place, view.leaf place = none)
    {page : Fin pageCount} (referenced : 0 < view.refs page) :
    page = view.root ∨ page = view.table := by
  rcases refs_pos_iff.mp referenced with isRoot | isTable | ⟨place, leaf, mapped, -⟩
  · exact .inl isRoot
  · exact .inr isTable
  · rw [vacant place] at mapped
    cases mapped

theorem BuiltOver.freePages_of_vacant {low : Nat → UInt32} {base : Ledger} {before ram : Ram}
    {view : SpaceView} (built : BuiltOver low base before view ram)
    (vacant : ∀ place, view.leaf place = none) (owner : Owner) :
    (base.charge owner view.refs).freePages + 2 = base.freePages := by
  have placing : Placing low base before ∅ view ram := .of_vacant built vacant
  have noLeaves := Finset.subset_empty.mp placing.mapped_subset
  have used := placing.freePages_eq owner
  rw [noLeaves, Finset.card_empty] at used
  exact used

namespace Painted

variable {low : Nat → UInt32} {base : Ledger} {before ram first : Ram} {image : ProgramImage}
  {met : Finset (Fin processPageCount)} {view child : SpaceView} {owner : Owner}
  {place : Fin processPageCount} {page : Fin pageCount}

/-- Two pages are taken for the space, and one for each page of the image. -/
theorem freePages_of_image (painted : Painted low base before met image.picture child ram)
    (owner : Owner) :
    (base.charge owner child.refs).freePages + (2 + image.footprint.card) = base.freePages := by
  have allMapped : child.mapped = image.footprint := by
    ext place
    rw [painted.mem_mapped_iff, ← ProgramImage.placeNumber_mem_touched]
    by_cases touched : placeNumber place ∈ image.touched
    · rw [ProgramImage.writable?_picture_of_touched touched]
      exact iff_of_true rfl touched
    · rw [ProgramImage.writable?_picture_of_not_touched touched]
      exact iff_of_false (by decide) touched
  rw [← allMapped]
  exact painted.toPlacing.freePages_eq owner

section Grown

variable (painted : Painted low base before met image.picture child ram)
  (vacant : ∀ place, view.leaf place = none) (sameRoot : child.root = view.root)
  (sameTable : child.table = view.table)

include painted vacant sameRoot sameTable

theorem leaf_untaken {leaf : Leaf} (mapped : child.leaf place = some leaf) :
    ¬(base.charge owner view.refs).Taken leaf.page := by
  rw [Ledger.taken_charge_iff, not_or]
  refine ⟨painted.leavesNew place leaf mapped, fun referenced => ?_⟩
  rcases SpaceView.structural_of_refs vacant referenced with isRoot | isTable
  · exact SpaceView.leaf_page_ne_root (painted.built.single _ painted.built.rootNew) mapped
      (isRoot.trans sameRoot.symm)
  · exact SpaceView.leaf_page_ne_table (painted.built.single _ painted.built.tableNew) mapped
      (isTable.trans sameTable.symm)

/-- What was taken when the space was new, or is not taken once it is painted, is referred to as
often as before. -/
theorem refs_eq (held : (base.charge owner view.refs).Taken page ∨
    ¬(base.charge owner child.refs).Taken page)
    (single : ∀ page, ¬base.Taken page → view.refs page ≤ 1) :
    child.refs page = view.refs page := by
  by_cases structural : page = view.root ∨ page = view.table
  · have new : ¬base.Taken page := by
      rcases structural with rfl | rfl
      · exact sameRoot ▸ painted.built.rootNew
      · exact sameTable ▸ painted.built.tableNew
    have before : 0 < view.refs page := SpaceView.refs_pos_iff.mpr (structural.imp_right .inl)
    have now : 0 < child.refs page := by
      rw [← sameRoot, ← sameTable] at structural
      exact SpaceView.refs_pos_iff.mpr (structural.imp_right .inl)
    have once := single page new
    have still := painted.built.single page new
    omega
  · have before : ¬0 < view.refs page := fun referenced =>
      structural (SpaceView.structural_of_refs vacant referenced)
    have now : ¬0 < child.refs page := by
      intro referenced
      rcases SpaceView.refs_pos_iff.mp referenced with isRoot | isTable | ⟨other, leaf, mapped, rfl⟩
      · exact structural (.inl (isRoot.trans sameRoot))
      · exact structural (.inr (isTable.trans sameTable))
      · rcases held with taken | untaken
        · exact painted.leaf_untaken vacant sameRoot sameTable mapped taken
        · exact untaken (Ledger.taken_charge_iff.mpr (.inr referenced))
    omega

end Grown

/-- A painted space is looked up as its view says, whatever the ledger. -/
theorem lookup_eq {ledger : Ledger} {picture : Picture}
    (painted : Painted low base before met picture child ram) (owner : Owner)
    (place : Fin processPageCount) :
    (child.space owner).lookup ⟨ledger, ram⟩ (.ofPage (placeNumber place)) =
      .ok ((child.leaf place).map Leaf.mapping) :=
  painted.built.stands.lookup_placeNumber place

theorem hasLoaded (painted : Painted low base before met image.picture child ram)
    (valid : ∀ segment ∈ image.segments, segment.isValid = true)
    (built : BuiltOver low base before view first) (vacant : ∀ place, view.leaf place = none)
    (sameRoot : child.root = view.root) (sameTable : child.table = view.table) :
    image.HasLoaded (child.space owner) ⟨base.charge owner view.refs, first⟩
      ⟨base.charge owner child.refs, ram⟩ where
  within number touched := by
    rw [ProgramImage.touched_eq valid] at touched
    obtain ⟨place, -, same⟩ := touched
    exact ⟨place, same⟩
  mapped place touched := by
    obtain ⟨leaf, mapped, opened⟩ := Option.map_eq_some_iff.mp
      ((painted.leaves place).trans (ProgramImage.writable?_picture_of_touched touched))
    have flags : leaf.flags = image.flagsAt (placeNumber place) := by
      rw [Leaf.flags, opened, userFlags, ProgramImage.flagsAt]
      simp only [decide_eq_true_eq]
    have new := painted.leavesNew place leaf mapped
    have once := painted.built.single leaf.page new
    have referenced := SpaceView.refs_leaf_pos mapped
    refine ⟨leaf.page, ?_, painted.leaf_untaken vacant sameRoot sameTable mapped,
      Ledger.entry_charge_of_untaken new owner (by omega), fun offset inside => ?_⟩
    · rw [painted.lookup_eq owner place, mapped, Option.map_some, Leaf.mapping, flags]
    · rw [painted.bytes place leaf mapped offset inside, ProgramImage.byte_picture valid]
  unmapped place untouched :=
    painted.lookup_eq_none (ProgramImage.writable?_picture_of_not_touched untouched) owner
  apart here there mapping other isHere isThere same := by
    rw [painted.lookup_eq owner] at isHere isThere
    obtain ⟨leaf, mapped, rfl⟩ := Option.map_eq_some_iff.mp (Except.ok.inj isHere)
    obtain ⟨second, alsoMapped, rfl⟩ := Option.map_eq_some_iff.mp (Except.ok.inj isThere)
    have single := painted.built.single _ (painted.leavesNew there second alsoMapped)
    exact SpaceView.place_unique single alsoMapped mapped (PhysAddr.ofPage_inj.mp same)
  other_entry page held := by
    rw [Ledger.entry_charge, Ledger.entry_charge,
      painted.refs_eq vacant sameRoot sameTable held built.single]
  freePages_eq := by
    have new := built.freePages_of_vacant vacant owner
    have used := painted.freePages_of_image owner
    rw [ProgramImage.ncard_touched valid]
    dsimp only
    omega

end Painted

/-! ## Loading -/

/-- A program is loaded into a new space exactly as its image says. -/
theorem BuiltOver.loadsExactly {low : Nat → UInt32} {base : Ledger} {before ram : Ram}
    {view : SpaceView} {owner : Owner} (built : BuiltOver low base before view ram)
    (vacant : ∀ place, view.leaf place = none) (tidy : base.Tidy) (owned : owner ≠ .free)
    (image : ProgramImage) :
    image.LoadsExactly (view.space owner) ⟨base.charge owner view.refs, ram⟩ := by
  have two := built.freePages_of_vacant vacant owner
  have outcome := image.ensures_place built vacant tidy owned
  refine ⟨fun fault after => outcome.not_faulted, fun unacceptable => ?_,
    fun acceptable short => ?_, fun acceptable enough => ?_⟩
  · cases validated : image.validate with
    | error cause =>
        exact ⟨cause, ProgramImage.rejects_of_validate validated,
          ProgramImage.place_eq_error validated _ _⟩
    | ok => exact absurd (ProgramImage.validate_eq_ok_iff_acceptable.mp validated) unacceptable
  all_goals
    have accepted := ProgramImage.validate_eq_ok_iff_acceptable.mpr acceptable
    have valid := (ProgramImage.validate_eq_ok_iff.mp accepted).1
    rw [ProgramImage.ncard_touched valid] at *
    rcases outcome.cases with ⟨entry, after, ran, rfl, -, child, next, sameSpace, sameTable, rfl,
      painted⟩ | ⟨cause, after, ran, reason, -⟩
  · have used := painted.freePages_of_image owner
    dsimp only at short
    omega
  · rcases reason with invalid | ⟨rfl, -⟩
    · rw [accepted] at invalid
      cases invalid
    · exact ⟨after, ran⟩
  · have sameRoot : child.root = view.root := by
      have roots := congrArg AddressSpace.root sameSpace
      exact (PhysAddr.ofPage_inj.mp roots).symm
    refine ⟨_, ran, ?_⟩
    rw [sameSpace]
    exact painted.hasLoaded valid built vacant sameRoot sameTable
  · rcases reason with invalid | ⟨-, short⟩
    · rw [accepted] at invalid
      cases invalid
    · dsimp only at enough
      omega

/-- Whatever the image, loading it into a space that was just made gives exactly the image. -/
theorem ProgramImage.loads_are_exact {layout : Layout} {kernel space : AddressSpace} {pid : Pid}
    {memory built : Memory} (history : Ledger.Reached layout memory.ledger)
    (grounded : kernel.Grounded memory)
    (made : AddressSpace.ofTemplate kernel pid memory = .ok space built) (image : ProgramImage) :
    image.LoadsExactly space built := by
  obtain ⟨low, lends⟩ := grounded.exists_lends
  have tidy := history.proper.tidy
  obtain ⟨view, next, rfl, blank, rfl, isBuilt⟩ :=
    (AddressSpace.ensures_ofTemplate_over tidy lends pid).done made
  exact isBuilt.loadsExactly blank.vacant tidy (by simp) image

/-! ## A program of two segments -/

/-- A segment that the program may only read, and one inside it that it may write. -/
def ProgramImage.twoSegments : ProgramImage where
  name := "two segments"
  entry := ⟨processStart⟩
  segments := [⟨⟨processStart⟩, ⟨#[1, 2, 3]⟩, 16, false⟩, ⟨⟨processStart + 2⟩, ⟨#[4]⟩, 1, true⟩]

example : ProgramImage.twoSegments.byte (processStart + 2) = 4 := by decide

/-- There is a kernel, and a new space beside it, into which two segments are loaded. -/
theorem ProgramImage.two_segments_are_loaded :
    ∃ (kernel space : AddressSpace) (memory built : Memory), Ledger.Reached {} memory.ledger ∧
      kernel.Grounded memory ∧
      AddressSpace.ofTemplate kernel (.ofIndex 1) memory = .ok space built ∧
      twoSegments.Acceptable ∧ twoSegments.touched.ncard ≤ built.ledger.freePages ∧
      twoSegments.LoadsExactly space built := by
  have room : pageSize ≤ ({} : Layout).stackTop := by decide
  obtain ⟨boot, laidOut⟩ := Ledger.exists_ofLayout room
  have tidy := (Ledger.atBoot_of_ofLayout laidOut).tidy
  have half := Ledger.half_le_freePages laidOut room (by decide) (by decide)
  have booted : AddressSpace.buildKernel.Ensures ⟨boot, .blank⟩ _ _ :=
    AddressSpace.ensures_buildKernel tidy
  rcases booted.cases with ⟨kernel, memory, ran, root, table, next, rfl, rootFree, tableFree, rfl,
    filled⟩ | ⟨_, _, _, -, short⟩
  · have withRoot := Ledger.freePages_charge_single rootFree.untaken .kernel
    have withTable := Ledger.freePages_charge_single tableFree.untaken .kernel
    have rootTaken := (Ledger.taken_charge_single boot .kernel root).charge .kernel
      (Pi.single table 1)
    have tableTaken := Ledger.taken_charge_single (boot.charge .kernel (Pi.single root 1)) .kernel
      table
    rw [Ledger.charge_charge] at withTable rootTaken tableTaken
    have moved := AddressSpace.carries_buildKernel ⟨boot, .blank⟩
    rw [after_of_eq_ok ran] at moved
    have history : Ledger.Reached {} _ := ⟨boot, laidOut, moved⟩
    have grounded := AddressSpace.grounded_of_spans filled.spans rootTaken tableTaken .kernel
    obtain ⟨low, lends⟩ := grounded.exists_lends
    have copied : (AddressSpace.ofTemplate _ (.ofIndex 1)).Ensures _ _ _ :=
      AddressSpace.ensures_ofTemplate_over history.proper.tidy lends (.ofIndex 1)
    rcases copied.cases with ⟨space, built, made, view, first, rfl, blank, rfl, isBuilt⟩ |
      ⟨_, _, _, -, short, -⟩
    · have two := isBuilt.freePages_of_vacant blank.vacant (.process (.ofIndex 1))
      have accepted : twoSegments.validate = .ok () := rfl
      have few : twoSegments.footprint.card ≤ 2 := twoSegments.card_footprint_le
      refine ⟨_, _, _, _, history, grounded, made, validate_eq_ok_iff_acceptable.mp accepted, ?_,
        loads_are_exact history grounded made twoSegments⟩
      rw [ncard_touched (validate_eq_ok_iff.mp accepted).1]
      simp only [firstProcessPage] at half two ⊢
      omega
    · simp only [firstProcessPage] at half short
      omega
  · simp only [firstProcessPage] at half
    omega

end PagingKernel
