import PagingKernel.Proofs.AddressSpace.Duplicate
import PagingKernel.Proofs.Neighbours.Plot

/-!
# Spaces beside each other

A `Chart` is the kernel's own space together with the plots of all others.  It
fits memory if all of them stand, on pages that lie apart, and if pages are
shared in one way only: by spaces that map them at the same place.  A page that
one space alone maps belongs to that space.

Whatever one of the spaces does, the chart still fits (`Fits.alter`), and so it
does with one more space that was made, or copied from another (`Fits.add`).
-/

namespace PagingKernel

open PageTable PagingKernel.Action

/-- The kernel's own space, and the plots of the other spaces. -/
structure Chart where
  /-- The page of the kernel's directory. -/
  kernelRoot : Fin pageCount
  /-- The page of the kernel's page table. -/
  kernelTable : Fin pageCount
  /-- The other spaces. -/
  plots : List Plot

namespace Chart

/-- A page that a directory or a page table lies on. -/
def Structural (chart : Chart) (page : Fin pageCount) : Prop :=
  page = chart.kernelRoot ∨ page = chart.kernelTable ∨
    ∃ plot ∈ chart.plots, page = plot.root ∨ page = plot.table

/-- A page that a directory lies on, or the page table of another space. -/
def Beside (chart : Chart) (plot : Plot) (page : Fin pageCount) : Prop :=
  page = chart.kernelRoot ∨ page = chart.kernelTable ∨
    ∃ other ∈ chart.plots, page = other.root ∨ other ≠ plot ∧ page = other.table

theorem Beside.structural {chart : Chart} {plot : Plot} {page : Fin pageCount}
    (beside : chart.Beside plot page) : chart.Structural page := by
  rcases beside with isRoot | isTable | ⟨other, member, isRoot | ⟨-, isTable⟩⟩
  · exact .inl isRoot
  · exact .inr (.inl isTable)
  · exact .inr (.inr ⟨other, member, .inl isRoot⟩)
  · exact .inr (.inr ⟨other, member, .inr isTable⟩)

/-- No space but one maps a page at a place. -/
def Sole (chart : Chart) (ram : Ram) (plot : Plot) (place : Fin processPageCount)
    (page : Fin pageCount) : Prop :=
  ∀ other ∈ chart.plots, other ≠ plot → ¬other.Maps ram place page

/-- All spaces of the chart stand in memory, apart from each other but for pages that they share. -/
structure Fits (chart : Chart) (memory : Memory) : Prop where
  tidy : memory.ledger.Tidy
  kernelStands : memory.ram.Spans chart.kernelRoot chart.kernelTable kernelWord
  kernelRootTaken : memory.ledger.Taken chart.kernelRoot
  kernelTableTaken : memory.ledger.Taken chart.kernelTable
  rooted : ∀ plot ∈ chart.plots, plot.Rooted memory
  table_apart : ∀ plot ∈ chart.plots, ¬chart.Beside plot plot.table
  leaf_apart : ∀ plot ∈ chart.plots, ∀ place page, plot.Maps memory.ram place page →
    ¬chart.Structural page
  place_eq : ∀ first ∈ chart.plots, ∀ second ∈ chart.plots, ∀ place other page,
    first.Maps memory.ram place page → second.Maps memory.ram other page → place = other
  sole_entry : ∀ plot ∈ chart.plots, ∀ place page, plot.Maps memory.ram place page →
    chart.Sole memory.ram plot place page → memory.ledger.entry page = ⟨plot.owner, 1⟩

namespace Fits

variable {chart : Chart} {memory before after : Memory} {plot other : Plot}
  {place : Fin processPageCount} {page : Fin pageCount}

section

variable (fits : chart.Fits memory)

include fits

theorem taken_of_structural (structural : chart.Structural page) : memory.ledger.Taken page := by
  rcases structural with rfl | rfl | ⟨plot, member, rfl | rfl⟩
  · exact fits.kernelRootTaken
  · exact fits.kernelTableTaken
  · exact (fits.rooted plot member).rootTaken
  · exact (fits.rooted plot member).tableTaken

/-- The kernel's space can be copied, whatever happens to pages that are free. -/
theorem lends : AddressSpace.Lends memory.ledger memory.ram
    ⟨⟨.ofPage chart.kernelRoot⟩, .kernel⟩ kernelWord :=
  AddressSpace.lends_kernelWord fits.kernelStands fits.kernelRootTaken fits.kernelTableTaken _

/-- A space of the chart can be inherited. -/
theorem inheritable (member : plot ∈ chart.plots) :
    Inheritable memory.ledger memory.ram plot.space (plot.leaf? memory.ram) where
  reads next kept place := by
    have rooted := fits.rooted plot member
    have refers : next.RefersTo plot.root 0 plot.table := by
      rw [Ram.RefersTo, ← (kept _ rooted.rootTaken).entry_eq (by decide)]
      exact rooted.refers
    rw [Plot.lookup_eq refers (VirtAddr.page_ofPage _),
      Plot.leaf?_congr (kept _ rooted.tableTaken)]
  backed place mapping found := by
    obtain ⟨page, atPage, taken, -⟩ := (fits.rooted plot member).backed place mapping found
    exact ⟨page, atPage, taken⟩

end

/-! ## Work by one of the spaces -/

section

variable {write : Nat → UInt8 → UInt8} (fits : chart.Fits before) (member : plot ∈ chart.plots)
  (altered : plot.Alters write before after)

include fits member altered

theorem same_of_beside (beside : chart.Beside plot page) :
    Ram.SamePage before.ram after.ram page := by
  refine altered.kept page (fits.taken_of_structural beside.structural) ?_ fun place maps =>
    fits.leaf_apart plot member place page maps beside.structural
  rintro rfl
  exact fits.table_apart plot member beside

/-- The page table of another space is not touched. -/
theorem same_table (isOther : other ∈ chart.plots) (apart : other ≠ plot) :
    Ram.SamePage before.ram after.ram other.table :=
  fits.same_of_beside member altered (.inr (.inr ⟨other, isOther, .inr ⟨apart, rfl⟩⟩))

/-- What is mapped was mapped, or is a page of the space that works, and was not taken. -/
theorem mapped_or_new (isOther : other ∈ chart.plots) (maps : other.Maps after.ram place page) :
    other.Maps before.ram place page ∨
      other = plot ∧ ¬before.ledger.Taken page ∧ after.ledger.entry page = ⟨plot.owner, 1⟩ := by
  by_cases same : other = plot
  · subst same
    rcases altered.mapped_or_new maps with was | ⟨-, untaken, entry_eq⟩
    · exact .inl was
    · exact .inr ⟨rfl, untaken, entry_eq⟩
  · exact .inl ((Plot.maps_congr (fits.same_table member altered isOther same)).mp maps)

/-- What was mapped is mapped. -/
theorem still_maps (isOther : other ∈ chart.plots) (maps : other.Maps before.ram place page) :
    other.Maps after.ram place page := by
  by_cases same : other = plot
  · subst same
    exact altered.maps maps
  · exact (Plot.maps_congr (fits.same_table member altered isOther same)).mpr maps

/-- Whatever one of the spaces does, the chart still fits. -/
theorem alter : chart.Fits after where
  tidy := altered.tidy fits.tidy
  kernelStands := fits.kernelStands.congr (fits.same_of_beside member altered (.inl rfl))
    (fits.same_of_beside member altered (.inr (.inl rfl)))
  kernelRootTaken := altered.taken fits.kernelRootTaken
  kernelTableTaken := altered.taken fits.kernelTableTaken
  rooted other isOther := by
    by_cases same : other = plot
    · subst same
      exact (fits.rooted other member).alter altered
    · exact (fits.rooted other isOther).congr (fun _ => altered.taken)
        (fits.same_of_beside member altered (.inr (.inr ⟨other, isOther, .inl rfl⟩)))
        (fits.same_table member altered isOther same)
  table_apart := fits.table_apart
  leaf_apart other isOther place page maps structural := by
    rcases fits.mapped_or_new member altered isOther maps with was | ⟨-, untaken, -⟩
    · exact fits.leaf_apart other isOther place page was structural
    · exact untaken (fits.taken_of_structural structural)
  place_eq first isFirst second isSecond here there page mapsHere mapsThere := by
    rcases fits.mapped_or_new member altered isFirst mapsHere with wasHere | ⟨rfl, untaken, -⟩ <;>
      rcases fits.mapped_or_new member altered isSecond mapsThere with
        wasThere | ⟨same, alsoUntaken, -⟩
    · exact fits.place_eq first isFirst second isSecond here there page wasHere wasThere
    · exact absurd ((fits.rooted first isFirst).taken_of_maps wasHere) alsoUntaken
    · exact absurd ((fits.rooted second isSecond).taken_of_maps wasThere) untaken
    · subst same
      exact ((fits.rooted second member).alter altered).place_unique here there page mapsHere
        mapsThere
  sole_entry other isOther place page maps sole := by
    rcases fits.mapped_or_new member altered isOther maps with was | ⟨rfl, -, entry_eq⟩
    · rw [altered.entry_eq page ((fits.rooted other isOther).taken_of_maps was)]
      refine fits.sole_entry other isOther place page was fun third isThird apart mapsThird => ?_
      exact sole third isThird apart (fits.still_maps member altered isThird mapsThird)
    · exact entry_eq

end

end Fits

end Chart

/-! ## New spaces -/

namespace SpaceView

/-- The plot of a space that is seen from above. -/
def plot (view : SpaceView) (owner : Owner) : Plot :=
  ⟨view.root, view.table, owner⟩

variable {low : Nat → UInt32} {view : SpaceView} {owner : Owner} {ram : Ram}
  {place : Fin processPageCount} {page : Fin pageCount}

theorem StandsOver.leaf?_plot (stands : view.StandsOver low ram) (owner : Owner)
    (place : Fin processPageCount) :
    (view.plot owner).leaf? ram place = (view.leaf place).map Leaf.mapping := by
  rw [← view.decodeEntry_wordOver_placeNumber low place]
  exact congrArg decodeEntry (Ram.Spans.entries stands _ (placeNumber_lt place))

theorem StandsOver.maps_plot_iff (stands : view.StandsOver low ram) :
    (view.plot owner).Maps ram place page ↔ ∃ leaf, view.leaf place = some leaf ∧
      leaf.page = page := by
  rw [Plot.Maps, stands.leaf?_plot owner place]
  constructor
  · rintro ⟨flags, found⟩
    obtain ⟨leaf, mapped, same⟩ := Option.map_eq_some_iff.mp found
    exact ⟨leaf, mapped, PhysAddr.ofPage_inj.mp (congrArg Mapping.pa same)⟩
  · rintro ⟨leaf, mapped, rfl⟩
    exact ⟨leaf.flags, by rw [mapped, Option.map_some, Leaf.mapping]⟩

end SpaceView

namespace Chart

/-- The chart with one more space. -/
def add (chart : Chart) (plot : Plot) : Chart :=
  { chart with plots := plot :: chart.plots }

variable {chart : Chart} {base : Ledger} {before next : Ram} {child : SpaceView} {owner : Owner}
  {plot : Plot} {place : Fin processPageCount} {page : Fin pageCount}

theorem structural_add (chart : Chart) (plot : Plot) {page : Fin pageCount}
    (structural : (chart.add plot).Structural page) :
    chart.Structural page ∨ page = plot.root ∨ page = plot.table := by
  rcases structural with isRoot | isTable | ⟨other, member, lies⟩
  · exact .inl (.inl isRoot)
  · exact .inl (.inr (.inl isTable))
  · rcases List.mem_cons.mp member with rfl | isOld
    · exact .inr lies
    · exact .inl (.inr (.inr ⟨other, isOld, lies⟩))

theorem beside_add (chart : Chart) (new : Plot) {page : Fin pageCount}
    (beside : (chart.add new).Beside plot page) :
    chart.Beside plot page ∨ page = new.root ∨ new ≠ plot ∧ page = new.table := by
  rcases beside with isRoot | isTable | ⟨other, member, lies⟩
  · exact .inl (.inl isRoot)
  · exact .inl (.inr (.inl isTable))
  · rcases List.mem_cons.mp member with rfl | isOld
    · exact .inr lies
    · exact .inl (.inr (.inr ⟨other, isOld, lies⟩))

section Kept

variable (fits : chart.Fits ⟨base, before⟩)
  (kept : ∀ page, base.Taken page → Ram.SamePage before next page)

include fits kept

theorem Fits.maps_kept_iff (member : plot ∈ chart.plots) :
    plot.Maps next place page ↔ plot.Maps before place page :=
  Plot.maps_congr (kept _ (fits.rooted plot member).tableTaken)

/-- Changing pages that are free keeps the chart. -/
theorem Fits.ram_congr : chart.Fits ⟨base, next⟩ where
  tidy := fits.tidy
  kernelStands := fits.kernelStands.congr (kept _ fits.kernelRootTaken)
    (kept _ fits.kernelTableTaken)
  kernelRootTaken := fits.kernelRootTaken
  kernelTableTaken := fits.kernelTableTaken
  rooted plot member := by
    have rooted := fits.rooted plot member
    exact rooted.congr (fun _ => id) (kept _ rooted.rootTaken) (kept _ rooted.tableTaken)
  table_apart := fits.table_apart
  leaf_apart plot member place page maps :=
    fits.leaf_apart plot member place page ((fits.maps_kept_iff kept member).mp maps)
  place_eq first isFirst second isSecond place other page here there :=
    fits.place_eq first isFirst second isSecond place other page
      ((fits.maps_kept_iff kept isFirst).mp here) ((fits.maps_kept_iff kept isSecond).mp there)
  sole_entry plot member place page maps sole := by
    refine fits.sole_entry plot member place page ((fits.maps_kept_iff kept member).mp maps) ?_
    exact fun other isOther apart also =>
      sole other isOther apart ((fits.maps_kept_iff kept isOther).mpr also)

end Kept

section Add

variable (fits : chart.Fits ⟨base, before⟩) (built : Built base before child next)
  (owned : owner ≠ .free)
  (shared : ∀ place leaf, child.leaf place = some leaf → base.Taken leaf.page →
    ∃ plot ∈ chart.plots, plot.Maps before place leaf.page)

include fits built

theorem Fits.ne_new (member : plot ∈ chart.plots) : child.plot owner ≠ plot := by
  rintro rfl
  exact built.rootNew (fits.rooted _ member).rootTaken

/-- Only the new space maps pages that were not taken. -/
theorem Fits.eq_new (member : plot ∈ (chart.add (child.plot owner)).plots)
    (maps : plot.Maps next place page) (untaken : ¬base.Taken page) : plot = child.plot owner := by
  rcases List.mem_cons.mp member with rfl | isOld
  · rfl
  · exact absurd ((fits.rooted plot isOld).taken_of_maps
      ((fits.maps_kept_iff built.kept isOld).mp maps)) untaken

theorem Fits.table_apart_add (member : plot ∈ (chart.add (child.plot owner)).plots) :
    ¬(chart.add (child.plot owner)).Beside plot plot.table := by
  intro beside
  rcases List.mem_cons.mp member with rfl | isOld
  · rcases chart.beside_add _ beside with old | isRoot | ⟨apart, -⟩
    · exact built.tableNew (fits.taken_of_structural old.structural)
    · exact built.root_ne_table isRoot.symm
    · exact apart rfl
  · have taken := (fits.rooted plot isOld).tableTaken
    rcases chart.beside_add _ beside with old | isRoot | ⟨-, isTable⟩
    · exact fits.table_apart plot isOld old
    · rw [isRoot] at taken
      exact built.rootNew taken
    · rw [isTable] at taken
      exact built.tableNew taken

include shared

/-- A page that was taken is mapped by a space of the chart wherever it is mapped. -/
theorem Fits.mapped_before (member : plot ∈ (chart.add (child.plot owner)).plots)
    (maps : plot.Maps next place page) (taken : base.Taken page) :
    ∃ old ∈ chart.plots, old.Maps before place page := by
  rcases List.mem_cons.mp member with rfl | isOld
  · obtain ⟨leaf, mapped, rfl⟩ := built.stands.maps_plot_iff.mp maps
    exact shared place leaf mapped taken
  · exact ⟨plot, isOld, (fits.maps_kept_iff built.kept isOld).mp maps⟩

/-- A page that one old space alone maps is not referred to by the new one. -/
theorem Fits.refs_eq_zero_of_sole (isOld : plot ∈ chart.plots) (maps : plot.Maps before place page)
    (sole : (chart.add (child.plot owner)).Sole next plot place page) : child.refs page = 0 := by
  have taken := (fits.rooted plot isOld).taken_of_maps maps
  have newListed := List.mem_cons_self (a := child.plot owner) (l := chart.plots)
  by_contra referenced
  rcases SpaceView.refs_pos_iff.mp (Nat.pos_of_ne_zero referenced) with
    rfl | rfl | ⟨other, leaf, mapped, rfl⟩
  · exact built.rootNew taken
  · exact built.tableNew taken
  · have there : (child.plot owner).Maps next other leaf.page :=
      built.stands.maps_plot_iff.mpr ⟨leaf, mapped, rfl⟩
    obtain ⟨old, isAlso, alsoMaps⟩ := fits.mapped_before built shared newListed there taken
    obtain rfl := fits.place_eq plot isOld old isAlso place other leaf.page maps alsoMaps
    exact sole _ newListed (fits.ne_new built isOld) there

theorem Fits.sole_entry_add (member : plot ∈ (chart.add (child.plot owner)).plots)
    (maps : plot.Maps next place page)
    (sole : (chart.add (child.plot owner)).Sole next plot place page) :
    (base.charge owner child.refs).entry page = ⟨plot.owner, 1⟩ := by
  rcases List.mem_cons.mp member with rfl | isOld
  · by_cases taken : base.Taken page
    · obtain ⟨old, isOld, alsoMaps⟩ := fits.mapped_before built shared member maps taken
      exact absurd ((fits.maps_kept_iff built.kept isOld).mpr alsoMaps)
        (sole old (List.mem_cons_of_mem _ isOld) (fits.ne_new built isOld).symm)
    · obtain ⟨leaf, mapped, rfl⟩ := built.stands.maps_plot_iff.mp maps
      have once := built.single _ taken
      have referenced := SpaceView.refs_leaf_pos mapped
      exact Ledger.entry_charge_of_untaken taken owner (by omega)
  · have was := (fits.maps_kept_iff built.kept isOld).mp maps
    rw [Ledger.entry_charge, fits.refs_eq_zero_of_sole built shared isOld was sole,
      PageInfo.charge_zero]
    refine fits.sole_entry plot isOld place page was fun other isOther apart alsoMaps => ?_
    exact sole other (List.mem_cons_of_mem _ isOther) apart
      ((fits.maps_kept_iff built.kept isOther).mpr alsoMaps)

include owned

/-- The new space stands, and maps no page twice. -/
theorem Fits.rooted_new :
    (child.plot owner).Rooted ⟨base.charge owner child.refs, next⟩ where
  owned := owned
  refers := Ram.Spans.refersTo built.stands
  rootTaken := BuiltOver.root_taken child
  tableTaken := BuiltOver.table_taken child
  root_ne_table := built.root_ne_table
  backed place mapping found := by
    rw [built.stands.leaf?_plot owner place] at found
    obtain ⟨leaf, mapped, rfl⟩ := Option.map_eq_some_iff.mp found
    exact ⟨leaf.page, rfl, Ledger.taken_charge_iff.mpr (.inr (SpaceView.refs_leaf_pos mapped)),
      SpaceView.leaf_page_ne_root (built.single _ built.rootNew) mapped,
      SpaceView.leaf_page_ne_table (built.single _ built.tableNew) mapped⟩
  place_unique place other page here there := by
    obtain ⟨leaf, mapped, rfl⟩ := built.stands.maps_plot_iff.mp here
    obtain ⟨second, alsoMapped, same⟩ := built.stands.maps_plot_iff.mp there
    by_cases taken : base.Taken leaf.page
    · obtain ⟨plot, member, maps⟩ := shared place leaf mapped taken
      obtain ⟨third, isThird, alsoMaps⟩ := shared other second alsoMapped (same ▸ taken)
      exact fits.place_eq plot member third isThird place other leaf.page maps (same ▸ alsoMaps)
    · exact (SpaceView.place_unique (built.single _ taken) mapped alsoMapped same).symm

/-- All spaces stand, the new one among them. -/
theorem Fits.rooted_add (member : plot ∈ (chart.add (child.plot owner)).plots) :
    plot.Rooted ⟨base.charge owner child.refs, next⟩ := by
  rcases List.mem_cons.mp member with rfl | isOld
  · exact fits.rooted_new built owned shared
  · have rooted := fits.rooted plot isOld
    exact rooted.congr (fun page taken => taken.charge owner _) (built.kept _ rooted.rootTaken)
      (built.kept _ rooted.tableTaken)

theorem Fits.leaf_apart_add (member : plot ∈ (chart.add (child.plot owner)).plots)
    (maps : plot.Maps next place page) : ¬(chart.add (child.plot owner)).Structural page := by
  intro structural
  by_cases taken : base.Taken page
  · obtain ⟨old, isOld, alsoMaps⟩ := fits.mapped_before built shared member maps taken
    rcases chart.structural_add _ structural with wasStructural | rfl | rfl
    · exact fits.leaf_apart old isOld place page alsoMaps wasStructural
    · exact built.rootNew taken
    · exact built.tableNew taken
  · have rootedNew := fits.rooted_new built owned shared
    obtain rfl := fits.eq_new built member maps taken
    rcases chart.structural_add _ structural with wasStructural | rfl | rfl
    · exact taken (fits.taken_of_structural wasStructural)
    · exact rootedNew.not_maps_root place maps
    · exact rootedNew.ne_table_of_maps maps rfl

theorem Fits.place_eq_add {first second : Plot} {other : Fin processPageCount}
    (isFirst : first ∈ (chart.add (child.plot owner)).plots)
    (isSecond : second ∈ (chart.add (child.plot owner)).plots)
    (here : first.Maps next place page) (there : second.Maps next other page) : place = other := by
  by_cases taken : base.Taken page
  · obtain ⟨old, isOld, mapsHere⟩ := fits.mapped_before built shared isFirst here taken
    obtain ⟨also, isAlso, mapsThere⟩ := fits.mapped_before built shared isSecond there taken
    exact fits.place_eq old isOld also isAlso place other page mapsHere mapsThere
  · obtain rfl := fits.eq_new built isFirst here taken
    obtain rfl := fits.eq_new built isSecond there taken
    exact (fits.rooted_new built owned shared).place_unique place other page here there

/-- A space that shares pages only with spaces of the chart, at the same places, is added. -/
theorem Fits.add : (chart.add (child.plot owner)).Fits ⟨base.charge owner child.refs, next⟩ where
  tidy := fits.tidy.charge owned _
  kernelStands := fits.kernelStands.congr (built.kept _ fits.kernelRootTaken)
    (built.kept _ fits.kernelTableTaken)
  kernelRootTaken := fits.kernelRootTaken.charge owner _
  kernelTableTaken := fits.kernelTableTaken.charge owner _
  rooted _ member := fits.rooted_add built owned shared member
  table_apart _ member := fits.table_apart_add built member
  leaf_apart _ member _ _ maps := fits.leaf_apart_add built owned shared member maps
  place_eq _ isFirst _ isSecond _ _ _ here there :=
    fits.place_eq_add built owned shared isFirst isSecond here there
  sole_entry _ member _ _ maps sole := fits.sole_entry_add built shared member maps sole

end Add

end Chart

end PagingKernel
