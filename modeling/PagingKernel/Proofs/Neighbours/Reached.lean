import PagingKernel.Proofs.Kernel.Start
import PagingKernel.Proofs.Neighbours.Beside

/-!
# Spaces with a history

`Neighbours` are the spaces that come from any calls in any order: spaces are
made, copied, grown page by page and loaded with programs, and every call may
fail.  At each time a chart of them fits memory, so what loading one more
program comes to is known, whichever space it is loaded into.

A child shares the pages that its parent may only read.  What is loaded into the
child where such a page lies is written over what the parent reads, and the
child may write there from then on, although the page is not its own.
-/

namespace PagingKernel

open PageTable PagingKernel.Action

namespace Chart.Fits

variable {chart : Chart} {memory : Memory} {plot : Plot}

/-- Beside the kernel's own space there is none at first. -/
theorem ofSound {boot : Ledger} {books : Books} {tasks : ProcessTable}
    (sound : Sound boot books memory tasks) :
    (⟨books.kernelRoot, books.kernelTable, []⟩ : Chart).Fits memory where
  tidy := sound.balanced.tidy
  kernelStands := sound.kernelStands
  kernelRootTaken := sound.balanced.kernelRoot_taken
  kernelTableTaken := sound.balanced.kernelTable_taken
  rooted _ impossible := by cases impossible
  table_apart _ impossible := by cases impossible
  leaf_apart _ impossible := by cases impossible
  place_eq _ impossible := by cases impossible
  sole_entry _ impossible := by cases impossible

/-- The chart fits with a space that is made, and without it if it is refused. -/
theorem ensures_ofTemplate (fits : chart.Fits memory) (pid : Pid) :
    (AddressSpace.ofTemplate ⟨⟨.ofPage chart.kernelRoot⟩, .kernel⟩ pid).Ensures memory
      (fun space after => ∃ new : Plot, space = new.space ∧ (chart.add new).Fits after)
      fun _ after => chart.Fits after := by
  obtain ⟨base, ram⟩ := memory
  apply (AddressSpace.ensures_ofTemplate_over fits.tidy fits.lends pid).mono
  · rintro _ _ ⟨view, next, rfl, blank, rfl, built⟩
    refine ⟨view.plot (.process pid), rfl, fits.add built (by simp) fun place leaf mapped => ?_⟩
    rw [blank.vacant place] at mapped
    cases mapped
  · rintro _ _ ⟨-, -, next, rfl, kept⟩
    exact fits.ram_congr kept

theorem ensures_duplicate (fits : chart.Fits memory) (member : plot ∈ chart.plots) (pid : Pid) :
    (plot.space.duplicate ⟨⟨.ofPage chart.kernelRoot⟩, .kernel⟩ pid).Ensures memory
      (fun space after => ∃ new : Plot, space = new.space ∧ (chart.add new).Fits after)
      fun _ after => chart.Fits after := by
  obtain ⟨base, ram⟩ := memory
  apply (AddressSpace.ensures_duplicate_over fits.tidy fits.lends (fits.inheritable member)
    pid).mono
  · rintro _ _ ⟨child, next, rfl, rfl, inherited⟩
    refine ⟨child.plot (.process pid), rfl,
      fits.add inherited.built (by simp) fun place leaf mapped taken => ?_⟩
    rcases inherited.copied_or_shared mapped with ⟨-, writable⟩ | ⟨shared, -⟩
    · exact absurd taken (inherited.built.openedNew place leaf mapped writable)
    · obtain ⟨⟨_, flags⟩, found, -, -, rfl⟩ := (Finset.mem_filter.mp shared).2
      exact ⟨plot, member, flags, found⟩
  · rintro _ _ ⟨-, -, next, rfl, kept⟩
    exact fits.ram_congr kept

end Chart.Fits

/-! ## What calls lead to -/

/-- Spaces that any calls led to, the newest first, and the memory that they stand in. -/
inductive Neighbours (layout : Layout) (ram : Ram) (kernel : AddressSpace) :
    List AddressSpace → Memory → Prop
  | alone {blank memory : Memory} (divided : Memory.ofLayout layout ram = .ok blank)
      (built : AddressSpace.buildKernel blank = .ok kernel memory) :
      Neighbours layout ram kernel [] memory
  | made {spaces : List AddressSpace} {before after : Memory} {space : AddressSpace} {pid : Pid}
      (earlier : Neighbours layout ram kernel spaces before)
      (ran : AddressSpace.ofTemplate kernel pid before = .ok space after) :
      Neighbours layout ram kernel (space :: spaces) after
  | notMade {spaces : List AddressSpace} {before after : Memory} {pid : Pid}
      {failure : Failure AddressSpaceError} (earlier : Neighbours layout ram kernel spaces before)
      (ran : AddressSpace.ofTemplate kernel pid before = .error failure after) :
      Neighbours layout ram kernel spaces after
  | copied {spaces : List AddressSpace} {before after : Memory} {parent child : AddressSpace}
      {pid : Pid} (earlier : Neighbours layout ram kernel spaces before) (member : parent ∈ spaces)
      (ran : parent.duplicate kernel pid before = .ok child after) :
      Neighbours layout ram kernel (child :: spaces) after
  | notCopied {spaces : List AddressSpace} {before after : Memory} {parent : AddressSpace}
      {pid : Pid} {failure : Failure AddressSpaceError}
      (earlier : Neighbours layout ram kernel spaces before) (member : parent ∈ spaces)
      (ran : parent.duplicate kernel pid before = .error failure after) :
      Neighbours layout ram kernel spaces after
  | mapped {spaces : List AddressSpace} {before : Memory} {space : AddressSpace} {va : VirtAddr}
      (earlier : Neighbours layout ram kernel spaces before) (member : space ∈ spaces)
      (inside : va.InProcess) (flags : PageFlags) :
      Neighbours layout ram kernel spaces ((space.mapFresh va flags).after before)
  | loaded {spaces : List AddressSpace} {before : Memory} {space : AddressSpace}
      (earlier : Neighbours layout ram kernel spaces before) (member : space ∈ spaces)
      (image : ProgramImage) :
      Neighbours layout ram kernel spaces ((image.place space).after before)

variable {layout : Layout} {ram : Ram} {kernel space : AddressSpace} {spaces : List AddressSpace}
  {memory : Memory}

/-- Whatever calls were made, a chart of the spaces fits memory. -/
theorem Neighbours.exists_chart (neighbours : Neighbours layout ram kernel spaces memory) :
    ∃ chart : Chart, kernel = ⟨⟨.ofPage chart.kernelRoot⟩, .kernel⟩ ∧
      spaces = chart.plots.map Plot.space ∧ chart.Fits memory := by
  induction neighbours with
  | alone divided built =>
      obtain ⟨boot, books, rfl, sound⟩ := Kernel.sound_of_fresh divided built
      exact ⟨⟨books.kernelRoot, books.kernelTable, []⟩, rfl, rfl, .ofSound sound⟩
  | made _ ran ih =>
      obtain ⟨chart, rfl, rfl, fits⟩ := ih
      obtain ⟨new, rfl, added⟩ := (fits.ensures_ofTemplate _).done ran
      exact ⟨chart.add new, rfl, rfl, added⟩
  | @notMade _ _ _ pid failure _ ran ih =>
      obtain ⟨chart, rfl, rfl, fits⟩ := ih
      have outcome := fits.ensures_ofTemplate pid
      cases failure with
      | refused cause => exact ⟨chart, rfl, rfl, outcome.refused ran⟩
      | faulted fault => exact absurd ran outcome.not_faulted
  | copied _ member ran ih =>
      obtain ⟨chart, rfl, rfl, fits⟩ := ih
      obtain ⟨plot, isPlot, rfl⟩ := List.mem_map.mp member
      obtain ⟨new, rfl, added⟩ := (fits.ensures_duplicate isPlot _).done ran
      exact ⟨chart.add new, rfl, rfl, added⟩
  | @notCopied _ _ _ _ pid failure _ member ran ih =>
      obtain ⟨chart, rfl, rfl, fits⟩ := ih
      obtain ⟨plot, isPlot, rfl⟩ := List.mem_map.mp member
      have outcome := fits.ensures_duplicate isPlot pid
      cases failure with
      | refused cause => exact ⟨chart, rfl, rfl, outcome.refused ran⟩
      | faulted fault => exact absurd ran outcome.not_faulted
  | mapped _ member inside flags ih =>
      obtain ⟨chart, rfl, rfl, fits⟩ := ih
      obtain ⟨plot, isPlot, rfl⟩ := List.mem_map.mp member
      have altered := (fits.rooted plot isPlot).alters_mapFresh fits.tidy inside.1 inside.2 flags
      exact ⟨chart, rfl, rfl, fits.alter isPlot altered⟩
  | loaded _ member image ih =>
      obtain ⟨chart, rfl, rfl, fits⟩ := ih
      obtain ⟨plot, isPlot, rfl⟩ := List.mem_map.mp member
      obtain ⟨write, -, altered⟩ := (fits.rooted plot isPlot).altersWithin_place fits.tidy image
      exact ⟨chart, rfl, rfl, fits.alter isPlot altered⟩

/-! ## A space and a copy of it -/

/-- A space maps a single page, for reading. -/
structure SpaceView.Reads (view : SpaceView) (place : Fin processPageCount)
    (page : Fin pageCount) : Prop where
  mapped : view.leaf place = some ⟨page, false⟩
  only : ∀ other leaf, view.leaf other = some leaf → other = place ∧ leaf = ⟨page, false⟩

namespace SpaceView.Reads

variable {view : SpaceView} {base : Ledger} {page : Fin pageCount} {place : Fin processPageCount}
  (reads : view.Reads place page)

include reads

theorem copiedPlaces_eq : copiedPlaces (fun place => (view.leaf place).map Leaf.mapping) = ∅ := by
  refine Finset.filter_eq_empty_iff.mpr fun here _ => ?_
  rintro ⟨mapping, found, writable⟩
  obtain ⟨leaf, mapped, rfl⟩ := Option.map_eq_some_iff.mp found
  obtain ⟨-, rfl⟩ := reads.only here leaf mapped
  cases writable

theorem eq_of_shared {here : Fin processPageCount} {other : Fin pageCount}
    (shared : here ∈ sharedPlaces (fun place => (view.leaf place).map Leaf.mapping) other) :
    here = place ∧ other = page := by
  obtain ⟨leaf, mapped, rfl⟩ := Option.map_eq_some_iff.mp
    (SpaceView.mem_placesOf.mp (view.sharedPlaces_subset other shared))
  obtain ⟨isPlace, rfl⟩ := reads.only here leaf mapped
  exact ⟨isPlace, rfl⟩

theorem card_sharedPlaces_le (other : Fin pageCount) :
    (sharedPlaces (fun place => (view.leaf place).map Leaf.mapping) other).card ≤ 1 :=
  Finset.card_le_one.mpr fun _ here _ there =>
    (reads.eq_of_shared here).1.trans (reads.eq_of_shared there).1.symm

theorem affordable (once : (base.entry page).refcount = 1) (room : 2 ≤ base.freePages) :
    ¬Unaffordable base fun place => (view.leaf place).map Leaf.mapping := by
  rintro (short | ⟨other, ⟨here, shared⟩, overflow⟩)
  · rw [reads.copiedPlaces_eq, Finset.card_empty] at short
    omega
  · have few := reads.card_sharedPlaces_le other
    obtain ⟨-, rfl⟩ := reads.eq_of_shared shared
    rw [once, refcountLimit] at overflow
    omega

theorem card_mapped_le : view.mapped.card ≤ 1 := by
  have here {other : Fin processPageCount} (member : other ∈ view.mapped) : other = place := by
    obtain ⟨leaf, mapped⟩ := Option.isSome_iff_exists.mp (SpaceView.mem_mapped.mp member)
    exact (reads.only other leaf mapped).1
  exact Finset.card_le_one.mpr fun _ first _ second => (here first).trans (here second).symm

/-- A copy of the space reads the same page, and refers to it once. -/
theorem copy {low : Nat → UInt32} {before ram : Ram} {child : SpaceView}
    (inherited : InheritedBelow low base before (fun place => (view.leaf place).map Leaf.mapping)
      processPageCount child ram) (taken : base.Taken page) :
    child.leaf place = some ⟨page, false⟩ ∧ child.refs page = 1 := by
  have mapped : child.leaf place = some ⟨page, false⟩ := by
    have here := inherited.below place place.isLt
    simp only [reads.mapped, Option.map_some, Inherited, Leaf.mapping_flags, Leaf.mapping_pa,
      Leaf.isUserWritable_flags, Leaf.isUserReadOnly_flags, PhysAddr.ofPage_inj] at here
    obtain ⟨_, rfl, mapped⟩ := here
    exact mapped
  have few := reads.card_sharedPlaces_le page
  rw [← inherited.refs_of_taken taken] at few
  have referenced : 0 < child.refs page := SpaceView.refs_leaf_pos mapped
  exact ⟨mapped, by omega⟩

end SpaceView.Reads

/-- The first place of the process range is looked up at its start. -/
theorem SpaceView.StandsOver.lookup_start {view : SpaceView} {low : Nat → UInt32}
    (stands : view.StandsOver low ram) {page : Fin pageCount}
    (mapped : view.leaf 0 = some ⟨page, false⟩) (ledger : Ledger) (owner : Owner) :
    (view.space owner).lookup ⟨ledger, ram⟩ ⟨processStart⟩ =
      .ok (some ⟨.ofPage page, .userRO⟩) := by
  have found := stands.lookup_placeNumber 0
  rw [mapped] at found
  exact found

/-- A kernel comes up, and a space is made beside it and maps a page for reading. -/
theorem Neighbours.exists_reader :
    ∃ (root : Fin pageCount) (base : Ledger) (before ram : Ram) (view : SpaceView)
      (page : Fin pageCount),
      Neighbours {} .blank ⟨⟨.ofPage root⟩, .kernel⟩ [view.space (.process (.ofIndex 1))]
        ⟨base.charge (.process (.ofIndex 1)) view.refs, ram⟩ ∧
      Built base before view ram ∧ ¬base.Taken page ∧ view.Reads 0 page ∧
      ram.pageByte page 0 = 0 ∧ 8 ≤ base.freePages := by
  obtain ⟨boot, books, ⟨base, before⟩, divided, built, sound, half⟩ := Kernel.exists_buildKernel
    (show pageSize ≤ ({} : Layout).stackTop by decide) (by decide) (by decide) .blank
  have room : 8 ≤ base.freePages := by
    simp only [firstProcessPage] at half
    omega
  have alone := Neighbours.alone divided built
  have fits : Chart.Fits ⟨books.kernelRoot, books.kernelTable, []⟩ ⟨base, before⟩ := .ofSound sound
  have owned : Owner.process (.ofIndex 1) ≠ .free := by simp
  rcases (AddressSpace.ensures_ofTemplate_over fits.tidy fits.lends (.ofIndex 1)).cases with
    ⟨_, _, made, view, next, rfl, blank, rfl, isBuilt⟩ | ⟨_, _, -, -, short, -⟩
  · rcases (isBuilt.ensures_mapFresh fits.tidy owned (blank.vacant 0) false).cases with
      ⟨_, _, grown, page, ram, rfl, new, rfl, stillBuilt, cleared⟩ | ⟨_, _, -, reason, -, full, -⟩
    · have neighbours := (alone.made made).mapped (List.mem_singleton_self _)
        (show (VirtAddr.ofPage (placeNumber 0)).InProcess from ⟨by decide, by decide⟩)
        (userFlags false)
      rw [after_of_eq_ok grown] at neighbours
      refine ⟨_, base, before, ram, view.setLeaf 0 ⟨page, false⟩, page, neighbours, stillBuilt, new,
        ⟨SpaceView.leaf_setLeaf_self, fun other leaf mapped => ?_⟩, cleared.blank 0 (by decide),
        room⟩
      rw [SpaceView.leaf_setLeaf] at mapped
      split at mapped
      · rename_i here
        exact ⟨here, (Option.some.inj mapped).symm⟩
      · rw [blank.vacant other] at mapped
        cases mapped
    · have two := isBuilt.freePages_of_vacant blank.vacant (.process (.ofIndex 1))
      have none := full.freePages_eq
      dsimp only at two none
      omega
  · dsimp only at short
    omega

/-- A space and a copy of it read the same page, which belongs to the first. -/
structure ReadTogether (parent child : AddressSpace) (page : Fin pageCount) (memory : Memory) :
    Prop where
  owner_ne : parent.owner ≠ child.owner
  parentReads : parent.lookup memory ⟨processStart⟩ = .ok (some ⟨.ofPage page, .userRO⟩)
  childReads : child.lookup memory ⟨processStart⟩ = .ok (some ⟨.ofPage page, .userRO⟩)
  blank : memory.ram.pageByte page 0 = 0
  entry_eq : memory.ledger.entry page = ⟨parent.owner, 2⟩

/-- A space that reads a page is copied, and the copy reads it too. -/
theorem Neighbours.exists_copy :
    ∃ (kernel parent child : AddressSpace) (memory : Memory) (page : Fin pageCount),
      Neighbours {} .blank kernel [child, parent] memory ∧
      ReadTogether parent child page memory := by
  obtain ⟨root, base, before, ram, view, page, neighbours, built, new, reads, blank, room⟩ :=
    exists_reader
  have referenced : 0 < view.refs page := SpaceView.refs_leaf_pos reads.mapped
  have single := built.single page new
  have entry := Ledger.entry_charge_of_untaken new (.process (.ofIndex 1))
    (show view.refs page = 1 by omega)
  have taken (other : Fin pageCount) (held : 0 < view.refs other) :
      (base.charge (.process (.ofIndex 1)) view.refs).Taken other :=
    Ledger.taken_charge_iff.mpr (.inr held)
  have few := reads.card_mapped_le
  have used := SpaceView.freePages_le base (.process (.ofIndex 1)) view
  have enough : 2 ≤ (base.charge (.process (.ofIndex 1)) view.refs).freePages := by omega
  obtain ⟨chart, isKernel, -, fits⟩ := neighbours.exists_chart
  have lends := fits.lends
  rw [← isKernel] at lends
  rcases (AddressSpace.ensures_duplicate_over fits.tidy lends
      (built.stands.inheritable taken (.process (.ofIndex 1))) (.ofIndex 2)).cases with
    ⟨_, _, copied, child, next, rfl, rfl, inherited⟩ | ⟨_, _, -, -, unaffordable, -⟩
  · have kept := inherited.built.kept
    have pageTaken := taken page referenced
    obtain ⟨mapped, once⟩ := reads.copy inherited pageTaken
    have stands : view.Stands next := built.stands.congr (kept _ (taken _ view.refs_root_pos))
      (kept _ (taken _ view.refs_table_pos))
    refine ⟨_, _, _, _, page, neighbours.copied (List.mem_singleton_self _) copied, ?_,
      stands.lookup_start reads.mapped _ _, inherited.built.stands.lookup_start mapped _ _, ?_, ?_⟩
    · show Owner.process (.ofIndex 1) ≠ .process (.ofIndex 2)
      decide
    · rw [← blank]
      exact (kept page pageTaken 0 (by decide)).symm
    · rw [Ledger.entry_charge, entry, once]
      rfl
  · exact absurd unaffordable (reads.affordable (congrArg PageInfo.refcount entry) enough)

/-! ## Loading beside others -/

/-- A program of one page that may be written, and one byte for it. -/
def ProgramImage.patch : ProgramImage where
  name := "patch"
  entry := ⟨processStart⟩
  segments := [⟨⟨processStart⟩, ⟨#[1]⟩, 1, true⟩]

namespace ProgramImage

theorem mem_touched_patch {number : Nat} : number ∈ patch.touched ↔ number = placeNumber 0 := by
  have first : Segment.firstPage ⟨⟨processStart⟩, ⟨#[1]⟩, 1, true⟩ = placeNumber 0 := by decide
  have span : Segment.pageSpan ⟨⟨processStart⟩, ⟨#[1]⟩, 1, true⟩ = 1 := by decide
  simp only [touched, patch, List.mem_singleton, exists_eq_left, Set.mem_ofPred_eq,
    Segment.touches_iff, first, span]
  omega

theorem LoadsBeside.patch_eq_ok {space : AddressSpace} {spaces : List AddressSpace}
    {memory : Memory} (beside : patch.LoadsBeside space spaces memory) {mapping : Mapping}
    (mapped : space.lookup memory ⟨processStart⟩ = .ok (some mapping)) :
    ∃ after, patch.place space memory = .ok patch.entry after := by
  cases ran : patch.place space memory with
  | ok entry after =>
      obtain rfl := beside.answer entry after ran
      exact ⟨after, rfl⟩
  | error failure after =>
      cases failure with
      | faulted fault => exact absurd ran (beside.not_faulted fault after)
      | refused cause =>
          rcases beside.refused cause after ran with ⟨rejects, -⟩ |
            ⟨-, -, -, place, touched, vacant⟩
          · exact absurd (validate_eq_ok_iff_acceptable.mp rfl) rejects.not_acceptable
          · obtain rfl := placeNumber_injective (mem_touched_patch.mp touched)
            cases vacant.symm.trans mapped

end ProgramImage

/-- Whatever image is loaded into one of several spaces, the others keep all that they map, and
all bytes but those that the image has data for in a page that they share with the space.  Pages
of the image that no other space shares belong to the space alone. -/
theorem Neighbours.loads_beside (neighbours : Neighbours layout ram kernel spaces memory)
    (member : space ∈ spaces) (image : ProgramImage) : image.LoadsBeside space spaces memory := by
  obtain ⟨chart, rfl, rfl, fits⟩ := neighbours.exists_chart
  obtain ⟨plot, isPlot, rfl⟩ := List.mem_map.mp member
  exact fits.loadsBeside isPlot image

/-- There is a space beside which a copy of it is patched. -/
theorem Neighbours.patch_beside_parent :
    ∃ (kernel parent child : AddressSpace) (memory : Memory),
      Neighbours {} .blank kernel [child, parent] memory ∧ child ∈ [child, parent] ∧
      ProgramImage.patch.LoadsBeside child [child, parent] memory := by
  obtain ⟨kernel, parent, child, memory, page, neighbours, -⟩ := exists_copy
  exact ⟨kernel, parent, child, memory, neighbours, List.mem_cons_self,
    loads_beside neighbours List.mem_cons_self .patch⟩

/-- A child is patched where it reads a page together with its parent.  The parent sees the patch,
and the child may write to the page from then on, although the page belongs to the parent and is
referred to twice. -/
theorem Neighbours.patched_child_changes_parent :
    ∃ (kernel parent child : AddressSpace) (before after : Memory) (page : Fin pageCount)
      (flags : PageFlags),
      Neighbours {} .blank kernel [child, parent] before ∧ parent ≠ child ∧
      ProgramImage.patch.place child before = .ok ProgramImage.patch.entry after ∧
      parent.byte? before ⟨processStart⟩ = some 0 ∧
      parent.byte? after ⟨processStart⟩ = some 1 ∧
      child.lookup after ⟨processStart⟩ = .ok (some ⟨.ofPage page, flags⟩) ∧
      flags.writable = true ∧ after.ledger.entry page = ⟨parent.owner, 2⟩ ∧
      parent.owner ≠ child.owner := by
  obtain ⟨kernel, parent, child, memory, page, neighbours, together⟩ := exists_copy
  obtain ⟨chart, -, isList, fits⟩ := neighbours.exists_chart
  obtain ⟨plot, isPlot, isChild⟩ := List.mem_map.mp (isList ▸ List.mem_cons_self (a := child))
  have beside := fits.loadsBeside isPlot .patch
  rw [isChild, ← isList] at beside
  have inside : (⟨processStart⟩ : VirtAddr).InProcess := ⟨by decide, by decide⟩
  have apart : parent ≠ child := fun same => together.owner_ne (congrArg AddressSpace.owner same)
  have taken : memory.ledger.Taken page := by
    rw [Ledger.Taken, together.entry_eq]
    exact Nat.succ_ne_zero 1
  obtain ⟨after, ran⟩ := beside.patch_eq_ok together.childReads
  obtain ⟨flags, still⟩ := beside.reused _ inside _ together.childReads
  obtain ⟨other, others, found, opened, -⟩ := beside.owned _ after ran ⟨processStart⟩
    (ProgramImage.mem_touched_patch.mpr rfl)
  have entries := beside.entry_eq page taken
  rw [after_of_eq_ok ran] at entries still
  have same := Option.some.inj (Except.ok.inj (still.symm.trans found))
  obtain rfl : page = other := PhysAddr.ofPage_inj.mp (congrArg Mapping.pa same)
  have sees : parent.byte? memory ⟨processStart⟩ = some (memory.ram.pageByte page 0) := by
    rw [AddressSpace.byte?, together.parentReads]
    rfl
  refine ⟨kernel, parent, child, memory, after, page, others, neighbours, apart, ran, ?_, ?_, found,
    opened ⟨_, List.mem_singleton_self _, by decide, rfl⟩, entries.trans together.entry_eq,
    together.owner_ne⟩
  · rw [sees, together.blank]
  · exact beside.overwritten _ after ran parent (by simp) apart _ inside
      ⟨_, _, together.childReads, together.parentReads, rfl⟩ ⟨_, List.mem_singleton_self _, rfl⟩

end PagingKernel
