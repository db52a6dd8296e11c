import PagingKernel.Program.Place
import PagingKernel.Proofs.AddressSpace.Template
import PagingKernel.Proofs.Program.Picture

/-!
# Placing programs

The pages of a program are taken one by one, each for the place it is mapped at.
`Placing low base before met view ram` is the invariant of this: every page of the
space is a new one, and is mapped at a place that the program meets.  `Painted`
says moreover what the space looks like so far.

Placing an acceptable image is refused only if memory runs out, that is, if
fewer pages were free than the space and the program need.  Otherwise the space
ends up with the picture of the image.
-/

namespace PagingKernel

open PageTable PagingKernel.Action

/-! ## Placing pages -/

/-- A space is being filled with new pages, at places of a set. -/
structure Placing (low : Nat → UInt32) (base : Ledger) (before : Ram)
    (met : Finset (Fin processPageCount)) (view : SpaceView) (ram : Ram) : Prop where
  built : BuiltOver low base before view ram
  leavesNew : ∀ place leaf, view.leaf place = some leaf → ¬base.Taken leaf.page
  mapped_subset : view.mapped ⊆ met

variable {low : Nat → UInt32} {base : Ledger} {before ram : Ram}
  {met : Finset (Fin processPageCount)} {view : SpaceView} {owner : Owner}
  {place : Fin processPageCount} {leaf : Leaf}

namespace Placing

/-- A space without leaves is the start of filling it. -/
theorem of_vacant (built : BuiltOver low base before view ram)
    (vacant : ∀ place, view.leaf place = none) :
    Placing low base before met view ram where
  built := built
  leavesNew place leaf mapped := by
    rw [vacant place] at mapped
    cases mapped
  mapped_subset place listed := by
    rw [SpaceView.mem_mapped, vacant place] at listed
    cases listed

theorem setLeaf {next : Ram} (placing : Placing low base before met view ram)
    (built : BuiltOver low base before (view.setLeaf place leaf) next) (new : ¬base.Taken leaf.page)
    (member : place ∈ met) : Placing low base before met (view.setLeaf place leaf) next where
  built := built
  leavesNew other found mapped := by
    rw [SpaceView.leaf_setLeaf] at mapped
    split at mapped
    · obtain rfl := Option.some.inj mapped
      exact new
    · exact placing.leavesNew other found mapped
  mapped_subset other listed := by
    rw [SpaceView.mem_mapped, SpaceView.leaf_setLeaf] at listed
    split at listed
    · rename_i here
      rw [here]
      exact member
    · exact placing.mapped_subset (SpaceView.mem_mapped.mpr listed)

/-- Writing to the page of a leaf does not disturb the construction. -/
theorem write {next : Ram} (placing : Placing low base before met view ram)
    (mapped : view.leaf place = some leaf)
    (same : ∀ other, other ≠ leaf.page → Ram.SamePage ram next other) :
    Placing low base before met view next where
  built := by
    refine placing.built.congr fun other held => same other ?_
    rintro rfl
    rcases held with taken | isRoot | isTable
    · exact placing.leavesNew place leaf mapped taken
    · exact SpaceView.leaf_page_ne_root (placing.built.single _ placing.built.rootNew) mapped isRoot
    · exact SpaceView.leaf_page_ne_table (placing.built.single _ placing.built.tableNew) mapped
        isTable
  leavesNew := placing.leavesNew
  mapped_subset := placing.mapped_subset

theorem untaken_of_refs {page : Fin pageCount} (placing : Placing low base before met view ram)
    (referenced : 0 < view.refs page) : ¬base.Taken page := by
  rcases SpaceView.refs_pos_iff.mp referenced with rfl | rfl | ⟨place, leaf, mapped, rfl⟩
  · exact placing.built.rootNew
  · exact placing.built.tableNew
  · exact placing.leavesNew place leaf mapped

/-- A page is taken for the root, one for the page table and one for each leaf. -/
theorem freePages_eq (placing : Placing low base before met view ram) (owner : Owner) :
    (base.charge owner view.refs).freePages + (2 + view.mapped.card) = base.freePages := by
  have allNew : view.newPlaces base = view.mapped := by
    ext place
    rw [SpaceView.mem_newPlaces, SpaceView.mem_mapped, Option.isSome_iff_exists]
    exact exists_congr fun leaf =>
      and_iff_left_of_imp fun mapped => placing.leavesNew place leaf mapped
  rw [← allNew]
  exact SpaceView.freePages_of_single placing.built.rootNew placing.built.tableNew
    placing.built.single owner

/-- Memory ran out while a space was filled, so fewer pages were free than it needs. -/
theorem freePages_lt (placing : Placing low base before met view ram) (member : place ∈ met)
    (vacant : view.leaf place = none) {reason : AllocError}
    (exhausted : Memory.Exhausted (base.charge owner view.refs) reason) :
    base.freePages < 2 + met.card := by
  have absent : place ∉ view.mapped := by
    simp [SpaceView.mem_mapped, vacant]
  have fewer : view.mapped.card < met.card :=
    Finset.card_lt_card ⟨placing.mapped_subset, fun reverse => absent (reverse member)⟩
  have used := placing.freePages_eq owner
  rw [exhausted.freePages_eq] at used
  omega

end Placing

/-- A space is being filled with new pages, and looks like a picture so far. -/
structure Painted (low : Nat → UInt32) (base : Ledger) (before : Ram)
    (met : Finset (Fin processPageCount)) (picture : Picture) (view : SpaceView) (ram : Ram) : Prop
    extends Placing low base before met view ram where
  leaves : ∀ place, (view.leaf place).map (·.writable) = picture.writable? place
  bytes : ∀ place leaf, view.leaf place = some leaf → ∀ offset < pageSize,
    ram.pageByte leaf.page offset = picture.byte (placeNumber place * pageSize + offset)

namespace Painted

variable {picture : Picture}

theorem of_vacant (built : BuiltOver low base before view ram)
    (vacant : ∀ place, view.leaf place = none) :
    Painted low base before met .blank view ram where
  toPlacing := .of_vacant built vacant
  leaves place := by
    rw [vacant place]
    rfl
  bytes place leaf mapped := by
    rw [vacant place] at mapped
    cases mapped

theorem writable?_of_leaf (painted : Painted low base before met picture view ram)
    (mapped : view.leaf place = some leaf) : picture.writable? place = some leaf.writable := by
  rw [← painted.leaves place, mapped]
  rfl

theorem writable?_of_vacant (painted : Painted low base before met picture view ram)
    (vacant : view.leaf place = none) : picture.writable? place = none := by
  rw [← painted.leaves place, vacant]
  rfl

theorem mem_mapped_iff (painted : Painted low base before met picture view ram) :
    place ∈ view.mapped ↔ (picture.writable? place).isSome := by
  rw [SpaceView.mem_mapped, ← painted.leaves place, Option.isSome_map]

/-- What is in the picture is found in the space, with the bytes that it has there. -/
theorem exists_lookup (painted : Painted low base before met picture view ram) {writable : Bool}
    (shown : picture.writable? place = some writable) (owner : Owner) :
    ∃ page : Fin pageCount,
      (view.space owner).dir.lookup ram (.ofPage (placeNumber place)) =
        .ok (some ⟨.ofPage page, userFlags writable⟩) ∧
      ∀ offset < pageSize, ram.pageByte page offset =
        picture.byte (placeNumber place * pageSize + offset) := by
  obtain ⟨leaf, mapped, rfl⟩ := Option.map_eq_some_iff.mp ((painted.leaves place).trans shown)
  refine ⟨leaf.page, ?_, painted.bytes place leaf mapped⟩
  have seen := painted.built.stands.lookup_placeNumber place
  rw [mapped] at seen
  exact seen

theorem lookup_eq_none (painted : Painted low base before met picture view ram)
    (hidden : picture.writable? place = none) (owner : Owner) :
    (view.space owner).dir.lookup ram (.ofPage (placeNumber place)) = .ok none := by
  have vacant := Option.map_eq_none_iff.mp ((painted.leaves place).trans hidden)
  have seen := painted.built.stands.lookup_placeNumber place
  rw [vacant] at seen
  exact seen

theorem leaves_setLeaf (painted : Painted low base before met picture view ram) {writable : Bool}
    (shown : leaf.writable = (writable || (picture.writable? place).getD false))
    (other : Fin processPageCount) :
    ((view.setLeaf place leaf).leaf other).map (·.writable) =
      (picture.map place writable).writable? other := by
  rw [SpaceView.leaf_setLeaf]
  simp only [Picture.map, Function.update_apply]
  split
  · rw [Option.map_some, shown]
  · exact painted.leaves other

/-- A cleared page at a vacant place looks as if it had always been there. -/
theorem addLeaf {next : Ram} {page : Fin pageCount} {writable : Bool}
    (painted : Painted low base before met picture view ram) (clear : picture.Clear)
    (vacant : view.leaf place = none) (new : ¬base.Taken page) (member : place ∈ met)
    (built : BuiltOver low base before (view.setLeaf place ⟨page, writable⟩) next)
    (cleared : BuiltOver.ClearedBeside view ram page next) :
    Painted low base before met (picture.map place writable) (view.setLeaf place ⟨page, writable⟩)
      next where
  toPlacing := painted.toPlacing.setLeaf built new member
  leaves := painted.leaves_setLeaf (by simp [painted.writable?_of_vacant vacant])
  bytes other leaf mapped offset inside := by
    rw [SpaceView.leaf_setLeaf] at mapped
    split at mapped
    · rename_i here
      obtain rfl := Option.some.inj mapped
      rw [cleared.blank offset inside, here]
      exact (clear place (painted.writable?_of_vacant vacant) offset inside).symm
    · rw [← cleared.leaves other leaf mapped offset inside]
      exact painted.bytes other leaf mapped offset inside

/-- A page that is mapped already may be opened for writing. -/
theorem openLeaf (painted : Painted low base before met picture view ram)
    (mapped : view.leaf place = some leaf) (member : place ∈ met) :
    Painted low base before met (picture.map place true) (view.setLeaf place ⟨leaf.page, true⟩)
      (ram.setEntry view.table (placeNumber place) (Leaf.word ⟨leaf.page, true⟩)) where
  toPlacing := by
    have new := painted.leavesNew place leaf mapped
    exact painted.toPlacing.setLeaf (painted.built.openLeaf mapped new) new member
  leaves := painted.leaves_setLeaf rfl
  bytes other found isLeaf offset inside := by
    obtain ⟨second, wasLeaf, samePage⟩ : ∃ second, view.leaf other = some second ∧
        second.page = found.page := by
      rw [SpaceView.leaf_setLeaf] at isLeaf
      split at isLeaf
      · rename_i here
        obtain rfl := Option.some.inj isLeaf
        exact ⟨leaf, here ▸ mapped, rfl⟩
      · exact ⟨found, isLeaf, rfl⟩
    have notTable := painted.built.leaf_page_ne_table wasLeaf
    rw [← samePage, ← Ram.samePage_setEntry_of_ne (placeNumber_lt place) notTable _ offset inside]
    exact painted.bytes other second wasLeaf offset inside

theorem map_eq (painted : Painted low base before met picture view ram)
    (mapped : view.leaf place = some leaf) {writable : Bool}
    (closed : ¬(writable && !leaf.writable) = true) : picture.map place writable = picture := by
  apply Picture.ext
  · intro other
    simp only [Picture.map, Function.update_apply]
    split
    · rename_i here
      rw [here, painted.writable?_of_leaf mapped]
      cases writable <;> simp_all
    · rfl
  · exact fun _ => rfl

/-- The data of a segment is written to the page of a leaf. -/
theorem fill {segment : Segment} {next : Ram}
    (painted : Painted low base before met picture view ram)
    (mapped : view.leaf place = some leaf)
    (same : ∀ other, other ≠ leaf.page → Ram.SamePage ram next other)
    (filled : ∀ offset < pageSize, next.pageByte leaf.page offset =
      if segment.holds (placeNumber place * pageSize + offset) then
        segment.dataAt (placeNumber place * pageSize + offset)
      else ram.pageByte leaf.page offset) :
    Painted low base before met (picture.fill segment (placeNumber place)) view next where
  toPlacing := painted.toPlacing.write mapped same
  leaves := painted.leaves
  bytes other found isLeaf offset inside := by
    have page := Picture.page_of_offset (placeNumber other) inside
    simp only [Picture.fill, page]
    by_cases here : other = place
    · obtain rfl := here
      obtain rfl := Option.some.inj (isLeaf.symm.trans mapped)
      rw [filled offset inside, painted.bytes other found isLeaf offset inside]
      simp
    · have numbers : placeNumber other ≠ placeNumber place :=
        fun same => here (placeNumber_injective same)
      have apart : found.page ≠ leaf.page := fun samePage =>
        here (SpaceView.place_unique (painted.built.single _ (painted.leavesNew place leaf mapped))
          mapped isLeaf samePage)
      rw [if_neg fun both => numbers both.2, ← same found.page apart offset inside]
      exact painted.bytes other found isLeaf offset inside

end Painted

/-- A step of filling a space that succeeded: the same directory, with more in it. -/
def Placed (low : Nat → UInt32) (base : Ledger) (before : Ram)
    (met : Finset (Fin processPageCount)) (owner : Owner) (table : Fin pageCount)
    (picture : Picture) (space : AddressSpace) (memory : Memory) : Prop :=
  ∃ view next, space = view.space owner ∧ view.table = table ∧
    memory = ⟨base.charge owner view.refs, next⟩ ∧ Painted low base before met picture view next

/-- A space with new pages in it. -/
def Begun (low : Nat → UInt32) (base : Ledger) (before : Ram) (owner : Owner) (space : AddressSpace)
    (memory : Memory) : Prop :=
  ∃ view next, space = view.space owner ∧ memory = ⟨base.charge owner view.refs, next⟩ ∧
    BuiltOver low base before view next

/-- A step of filling a space that was refused: memory ran out, and the space still stands. -/
def Starved (low : Nat → UInt32) (base : Ledger) (before : Ram)
    (met : Finset (Fin processPageCount)) (owner : Owner) (space : AddressSpace)
    (cause : AddressSpaceError) (memory : Memory) : Prop :=
  cause = .alloc .outOfMemory ∧ base.freePages < 2 + met.card ∧
    Begun low base before owner space memory

namespace Segment

/-- Filling a page is a store in that page, the same in every memory. -/
theorem exists_fillPage_eq_ok (segment : Segment) (number : Nat) (page : Fin pageCount) :
    ∃ start count source, start + count ≤ pageSize ∧
      (∀ ledger ram, segment.fillPage number (.ofPage page) ⟨ledger, ram⟩ =
        .ok () ⟨ledger, ram.overwrite page start count source⟩) ∧
      ∀ (ram : Ram) (offset : Nat), offset < pageSize →
        (ram.overwrite page start count source).pageByte page offset =
          if segment.holds (number * pageSize + offset) then
            segment.dataAt (number * pageSize + offset)
          else ram.pageByte page offset := by
  let base := number * pageSize
  let start := max segment.va.raw base
  let stop := min (segment.va.raw + segment.data.size) (base + pageSize)
  by_cases nonempty : start < stop
  · let data := segment.data.extract (start - segment.va.raw) (stop - segment.va.raw)
    have size_eq : data.size = stop - start := by
      simp only [data, ByteArray.size_extract]
      omega
    have inside : start - base + data.size ≤ pageSize := by
      omega
    refine ⟨start - base, data.size, byteAt data, inside, fun ledger ram => ?_,
      fun ram offset within => ?_⟩
    · rw [fillPage, if_pos nonempty]
      refine eq_ok_of_ensures ?_
      rw [Memory.ensures_onRam]
      exact (ensures_of_eq_ok (Ram.replace_inside inside (byteAt data))).mpr ⟨rfl, rfl⟩
    · rw [Ram.pageByte_overwrite inside]
      by_cases held : segment.va.raw ≤ base + offset ∧
          base + offset < segment.va.raw + segment.data.size
      · rw [if_pos (by omega), if_pos (by simpa [holds] using held), dataAt,
          Ram.byteAt_extract (by omega) (by omega)]
        congr 1
        omega
      · rw [if_neg (by omega), if_neg (by simpa [holds] using held)]
  · refine ⟨0, 0, fun _ => 0, by simp, fun ledger ram => ?_, fun ram offset within => ?_⟩
    · rw [fillPage, if_neg nonempty]
      rfl
    · rw [Ram.pageByte_overwrite (by simp), if_neg (by omega), if_neg]
      simp only [holds, Bool.and_eq_true, decide_eq_true_eq]
      omega

theorem ensures_backPage (segment : Segment) {picture : Picture}
    (painted : Painted low base before met picture view ram) (clear : picture.Clear)
    (tidy : base.Tidy) (owned : owner ≠ .free) (member : place ∈ met) :
    (segment.backPage (view.space owner) (placeNumber place)).Ensures
        ⟨base.charge owner view.refs, ram⟩
      (fun pa memory => ∃ child next leaf, pa = .ofPage leaf.page ∧ child.root = view.root ∧
        child.table = view.table ∧ memory = ⟨base.charge owner child.refs, next⟩ ∧
        Painted low base before met (picture.map place segment.writable) child next ∧
        child.leaf place = some leaf)
      (Starved low base before met owner (view.space owner)) := by
  rw [backPage, ensures_bind, ensures_peek]
  refine ⟨_, AddressSpace.lookup_eq (painted.built.stands.lookup_placeNumber place), ?_⟩
  cases found : view.leaf place with
  | some leaf =>
      simp only [Option.map_some, Leaf.mapping_flags, Leaf.flags_writable, Leaf.mapping_pa]
      by_cases opening : (segment.writable && !leaf.writable) = true
      · have mapped := painted.built.stands.map_eq_ok (base.charge owner view.refs) owner place
          ⟨leaf.page, true⟩ (by simp [found])
        have writes : picture.map place true = picture.map place segment.writable := by
          rw [(Bool.and_eq_true_iff.mp opening).1]
        rw [if_pos opening, ensures_bind]
        refine (ensures_of_eq_ok mapped).mpr (ensures_pure.mpr ?_)
        refine ⟨view.setLeaf place ⟨leaf.page, true⟩, _, ⟨leaf.page, true⟩, rfl, rfl, rfl, ?_,
          writes ▸ painted.openLeaf found member, SpaceView.leaf_setLeaf_self⟩
        rw [SpaceView.refs_setLeaf_of_page found ⟨leaf.page, true⟩ rfl]
      · rw [if_neg opening]
        refine ensures_pure.mpr ⟨view, ram, leaf, rfl, rfl, rfl, rfl, ?_, found⟩
        rw [painted.map_eq found opening]
        exact painted
  | none =>
      refine (painted.built.ensures_mapFresh tidy owned found segment.writable).mono ?_ ?_
      · rintro _ _ ⟨page, next, rfl, new, rfl, built, cleared⟩
        exact ⟨view.setLeaf place ⟨page, segment.writable⟩, next, ⟨page, segment.writable⟩, rfl,
          rfl, rfl, rfl, painted.addLeaf clear found new member built cleared,
          SpaceView.leaf_setLeaf_self⟩
      · rintro _ _ ⟨reason, rfl, exhausted, rfl⟩
        exact ⟨congrArg _ exhausted.cause_eq,
          painted.toPlacing.freePages_lt member found exhausted, view, ram, rfl, rfl,
          painted.built⟩

theorem ensures_placePage (segment : Segment) {picture : Picture}
    (painted : Painted low base before met picture view ram) (clear : picture.Clear)
    (tidy : base.Tidy) (owned : owner ≠ .free) (member : place ∈ met) :
    (segment.placePage (view.space owner) (placeNumber place)).Ensures
        ⟨base.charge owner view.refs, ram⟩
      (fun _ memory => Placed low base before met owner view.table
        ((picture.map place segment.writable).fill segment (placeNumber place))
        (view.space owner) memory)
      (Starved low base before met owner (view.space owner)) := by
  rw [placePage, ensures_bind]
  refine (segment.ensures_backPage painted clear tidy owned member).mono ?_ fun _ _ held => held
  rintro _ _ ⟨child, backed, leaf, rfl, sameRoot, sameTable, rfl, mappedPage, mapped⟩
  obtain ⟨start, count, source, inside, filled, bytes⟩ :=
    segment.exists_fillPage_eq_ok (placeNumber place) leaf.page
  refine (ensures_of_eq_ok (filled _ _)).mpr ⟨child, _, ?_, sameTable, rfl,
    mappedPage.fill mapped (fun other apart => Ram.samePage_overwrite_of_ne inside apart)
      (bytes backed)⟩
  rw [SpaceView.space, SpaceView.space, sameRoot]

theorem ensures_place {segment : Segment} (valid : segment.isValid = true)
    (meets : ∀ place, segment.Meets place → place ≠ stackPlace → place ∈ met)
    {table : Fin pageCount} {picture : Picture} (clear : picture.Clear) {space : AddressSpace}
    {start : Memory} (placed : Placed low base before met owner table picture space start)
    (tidy : base.Tidy) (owned : owner ≠ .free) :
    (segment.place space).Ensures start
      (fun _ memory => Placed low base before met owner table (picture.paint segment) space
        memory)
      (Starved low base before met owner space) := by
  have fits := size_le_of_isValid valid
  rw [place]
  refine ensures_forRange (fun number memory => Placed low base before met owner table
    (picture.paintBelow segment number) space memory) ?_ ?_
  · rw [Picture.paintBelow_firstPage fits]
    exact placed
  · rintro number _ above below ⟨view, ram, rfl, rfl, rfl, painted⟩
    obtain ⟨place, rfl, met, notStack⟩ := page_below_stack valid above below
    rw [← Picture.paintBelow_succ met]
    exact segment.ensures_placePage painted (clear.paintBelow fits _) tidy owned
      (meets place met notStack)

end Segment

/-- An acceptable image is placed unless memory runs out. -/
theorem ProgramImage.ensures_place (image : ProgramImage)
    (built : BuiltOver low base before view ram)
    (vacant : ∀ place, view.leaf place = none) (tidy : base.Tidy) (owned : owner ≠ .free) :
    (image.place (view.space owner)).Ensures ⟨base.charge owner view.refs, ram⟩
      (fun entry memory => entry = image.entry ∧ image.validate = .ok () ∧
        Placed low base before (image.footprint.erase stackPlace) owner view.table image.picture
          (view.space owner) memory)
      fun cause memory =>
        (image.validate = .error cause ∨
          cause = .space (.alloc .outOfMemory) ∧ base.freePages < 2 + image.footprint.card) ∧
        Begun low base before owner (view.space owner) memory := by
  rw [place, ensures_bind]
  cases accepted : image.validate with
  | error cause => exact ensures_ofExcept_error.mpr ⟨.inl rfl, view, ram, rfl, rfl, built⟩
  | ok =>
      obtain ⟨valid, -⟩ := ProgramImage.validate_eq_ok_iff.mp accepted
      have all : (forEach (·.place (view.space owner)) image.segments).Ensures
          ⟨base.charge owner view.refs, ram⟩
          (fun _ memory => Placed low base before (image.footprint.erase stackPlace) owner
            view.table (.ofSegments image.segments) (view.space owner) memory)
          (Starved low base before (image.footprint.erase stackPlace) owner
            (view.space owner)) := by
        refine ensures_forEach (fun earlier memory => Placed low base before
          (image.footprint.erase stackPlace) owner view.table (.ofSegments earlier)
          (view.space owner) memory) ⟨view, ram, rfl, rfl, rfl, .of_vacant built vacant⟩ ?_
        rintro earlier segment later memory split placed
        have listed : ∀ member ∈ earlier ++ [segment], member ∈ image.segments := by
          intro member isMember
          rw [split, List.append_cons]
          exact List.mem_append_left _ isMember
        have clear : (Picture.ofSegments earlier).Clear := Picture.clear_ofSegments
          fun member isMember => valid member (listed member (List.mem_append_left _ isMember))
        have member := listed segment (List.mem_append_right _ List.mem_cons_self)
        rw [Picture.ofSegments_snoc]
        refine Segment.ensures_place (valid segment member) ?_ clear placed tidy owned
        intro place meets notStack
        exact Finset.mem_erase.mpr
          ⟨notStack, ProgramImage.mem_footprint.mpr ⟨segment, member, meets⟩⟩
      rw [ensures_ofExcept_ok, ensures_bind, ensures_mapCause]
      refine all.mono ?_ ?_
      · intro _ memory placed
        exact ensures_pure.mpr ⟨rfl, rfl, placed⟩
      · rintro _ memory ⟨rfl, short, begun⟩
        have smaller : (image.footprint.erase stackPlace).card ≤ image.footprint.card :=
          Finset.card_erase_le
        exact ⟨.inr ⟨rfl, by omega⟩, begun⟩

end PagingKernel
