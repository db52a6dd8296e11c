import PagingKernel.Proofs.AddressSpace.Built
import PagingKernel.Proofs.AddressSpace.Release

/-!
# The kernel's own space, and spaces that copy it

The kernel's space is built page by page from the first page on, and the space
of a process begins with copies of the entries that another space, the kernel's,
has below the process range.  Both constructions pass through page tables that
agree with given words up to some page and are empty from there on.
-/

namespace PagingKernel

open PageTable PagingKernel.Action

/-- The words of a page table that holds those of `low` below a bound and is empty above. -/
def firstWords (low : Nat → UInt32) (bound : Nat) (number : Nat) : UInt32 :=
  if number < bound then low number else 0

theorem firstWords_zero (low : Nat → UInt32) : firstWords low 0 = fun _ => 0 :=
  rfl

theorem firstWords_self (low : Nat → UInt32) (bound : Nat) : firstWords low bound bound = 0 := by
  simp [firstWords]

theorem firstWords_succ (low : Nat → UInt32) (bound : Nat) :
    Function.update (firstWords low bound) bound (low bound) = firstWords low (bound + 1) := by
  funext number
  by_cases here : number = bound
  · simp [here, firstWords]
  · rw [Function.update_of_ne here]
    unfold firstWords
    by_cases below : number < bound
    · rw [if_pos below, if_pos (by omega)]
    · rw [if_neg below, if_neg (by omega)]

/-- The kernel maps nothing at page 0. -/
theorem firstWords_kernelWord_one : firstWords kernelWord 1 = fun _ => 0 := by
  funext number
  unfold firstWords kernelWord
  split
  · rw [if_neg (by omega)]
  · rfl

theorem firstWords_kernelWord_pageCount : firstWords kernelWord pageCount = kernelWord := by
  funext number
  unfold firstWords
  split
  · rfl
  · rename_i above
    rw [kernelWord, if_neg fun inside => above inside.2]

theorem kernelWord_of_pos {number : Nat} (positive : 0 < number) (inside : number < pageCount) :
    kernelWord number =
      encodeEntry (.ofPage number) (Layout.kernelMappingFlags (.ofPage number)) :=
  if_pos ⟨positive, inside⟩

/-- Without leaves, a space has nothing but the words below the process range. -/
theorem SpaceView.wordOver_eq_of_vacant {view : SpaceView} (low : Nat → UInt32)
    (vacant : ∀ place, view.leaf place = none) :
    view.wordOver low = firstWords low firstProcessPage := by
  funext number
  rcases SpaceView.number_cases number with below | ⟨place, rfl⟩ | above
  · rw [SpaceView.wordOver_of_lt _ _ below, firstWords, if_pos below]
  · rw [SpaceView.wordOver_placeNumber, vacant place, firstWords, if_neg]
    · rfl
    · simp [placeNumber]
  · rw [SpaceView.wordOver_of_ge _ _ above, firstWords, if_neg (by omega)]

variable {low : Nat → UInt32} {base : Ledger} {ram : Ram} {root table : Fin pageCount}

/-- A cleared page becomes a directory by its first entry, which refers to a cleared page table. -/
theorem Ram.spans_of_blank (apart : root ≠ table)
    (rootBlank : ∀ index < entryCount, ram.entry root index = 0)
    (tableBlank : ∀ index < entryCount, ram.entry table index = 0) :
    (ram.setEntry root 0 (encodeEntry (.ofPage table) .userRW)).Spans root table fun _ => 0 where
  first := entry_setEntry_self (by decide) _
  others slot positive inside := by
    rw [entry_setEntry_of_ne (by decide) (Nat.pos_iff_ne_zero.mp positive), rootBlank slot inside]
  entries index inside := by
    rw [← (samePage_setEntry_of_ne (by decide) apart.symm _).entry_eq inside,
      tableBlank index inside]

theorem Ram.spans_clear_clear (apart : root ≠ table) :
    (((ram.clear root).clear table).setEntry root 0 (encodeEntry (.ofPage table) .userRW)).Spans
      root table fun _ => 0 := by
  refine spans_of_blank apart (fun index inside => ?_) fun index inside => entry_clear inside
  rw [← (samePage_clear_of_ne apart).entry_eq inside, entry_clear inside]

/-- A directory has been filled with the words `low` below a bound, and no other page changed. -/
structure FilledBelow (low : Nat → UInt32) (before : Ram) (root table : Fin pageCount)
    (bound : Nat) (ram : Ram) : Prop where
  spans : ram.Spans root table (firstWords low bound)
  kept : ∀ page, page ≠ root → page ≠ table → Ram.SamePage before ram page

namespace FilledBelow

variable {before : Ram} {bound : Nat}

theorem zero (low : Nat → UInt32) (ram : Ram) (apart : root ≠ table) :
    FilledBelow low ram root table 0
      (((ram.clear root).clear table).setEntry root 0 (encodeEntry (.ofPage table) .userRW)) where
  spans := by
    rw [firstWords_zero]
    exact Ram.spans_clear_clear apart
  kept page notRoot notTable :=
    ((Ram.samePage_clear_of_ne notRoot).trans (Ram.samePage_clear_of_ne notTable)).trans
      (Ram.samePage_setEntry_of_ne (by decide) notRoot _)

theorem succ (filled : FilledBelow low before root table bound ram) (apart : root ≠ table)
    (inside : bound < entryCount) :
    FilledBelow low before root table (bound + 1) (ram.setEntry table bound (low bound)) where
  spans := by
    rw [← firstWords_succ]
    exact filled.spans.setEntry apart inside _
  kept page notRoot notTable :=
    (filled.kept page notRoot notTable).trans
      (Ram.samePage_setEntry_of_ne inside notTable _)

/-- Filled up to the end of physical memory, a directory holds all of the kernel's words. -/
theorem spans_kernelWord (filled : FilledBelow kernelWord before root table pageCount ram) :
    ram.Spans root table kernelWord := by
  rw [← firstWords_kernelWord_pageCount]
  exact filled.spans

end FilledBelow

namespace AddressSpace

/-! ## The kernel's own space -/

/-- Mapping the next page of the kernel's space writes the kernel's word for it. -/
theorem map_kernelPage_eq_ok {ledger : Ledger} {before : Ram} {number : Nat} {owner : Owner}
    (filled : FilledBelow kernelWord before root table number ram) (positive : 0 < number)
    (inside : number < pageCount) :
    (⟨⟨.ofPage root⟩, owner⟩ : AddressSpace).map (.ofPage number) (.ofPage number) pageSize
        (Layout.kernelMappingFlags (.ofPage number)) ⟨ledger, ram⟩ =
      .ok () ⟨ledger, ram.setEntry table number (kernelWord number)⟩ := by
  have below : number < entryCount := Nat.lt_trans inside (by decide)
  have vacant : ∀ mapping ∈ decodeEntry (ram.entry table number),
      mapping.pa = .ofPage (⟨number, inside⟩ : Fin pageCount) := by
    rw [filled.spans.entries _ below, firstWords_self, decodeEntry_zero]
    intro mapping impossible
    cases impossible
  rw [kernelWord_of_pos positive inside]
  exact map_lowPage_eq_ok ledger owner below filled.spans.refersTo vacant _

/-- The first page of the kernel's space brings the page table with it. -/
theorem ensures_map_firstKernelPage {ledger : Ledger} (tidy : ledger.Tidy)
    (rootTaken : ledger.Taken root) :
    ((⟨⟨.ofPage root⟩, .kernel⟩ : AddressSpace).map (.ofPage 1) (.ofPage 1) pageSize
        (Layout.kernelMappingFlags (.ofPage 1))).Ensures ⟨ledger, ram.clear root⟩
      (fun _ memory => ∃ table next, Memory.NextFree ledger table ∧
        memory = ⟨ledger.charge .kernel (Pi.single table 1), next⟩ ∧
        FilledBelow kernelWord ram root table 2 next)
      fun cause memory => ∃ reason, cause = .alloc reason ∧ Memory.Exhausted ledger reason ∧
        memory = ⟨ledger, ram.clear root⟩ := by
  have slot : dirIndex (.ofPage 1) = 0 := rfl
  have index : tableIndex (.ofPage 1) = 1 := rfl
  have absent : decodeEntry ((ram.clear root).entry root (dirIndex (.ofPage 1))) = none := by
    rw [Ram.entry_clear (dirIndex_lt _), decodeEntry_zero]
  have installing := ensures_map_page_installing tidy (show Owner.kernel ≠ .free by decide)
    (show 1 < virtualPageCount by decide) rootTaken absent ⟨1, by decide⟩
    (Layout.kernelMappingFlags (.ofPage 1))
  refine installing.mono ?_ fun _ _ held => held
  rintro _ _ ⟨table, next, rfl⟩
  have apart : root ≠ table := by
    rintro rfl
    exact next.untaken rootTaken
  have first : FilledBelow kernelWord ram root table 1
      (((ram.clear root).clear table).setEntry root 0 (encodeEntry (.ofPage table) .userRW)) := by
    have zero := FilledBelow.zero kernelWord ram apart
    exact ⟨firstWords_kernelWord_one ▸ firstWords_zero kernelWord ▸ zero.spans, zero.kept⟩
  have second := first.succ apart (by decide)
  rw [kernelWord_of_pos Nat.one_pos (by decide)] at second
  exact ⟨table, _, next, rfl, second⟩

/-- The kernel's space takes two pages, and is built whenever two pages are free. -/
theorem ensures_buildKernel (tidy : base.Tidy) :
    buildKernel.Ensures ⟨base, ram⟩
      (fun space memory => ∃ (root table : Fin pageCount) (next : Ram),
        space = ⟨⟨.ofPage root⟩, .kernel⟩ ∧
        Memory.NextFree base root ∧
        Memory.NextFree (base.charge .kernel (Pi.single root 1)) table ∧
        memory = ⟨base.charge .kernel (Pi.single root 1 + Pi.single table 1), next⟩ ∧
        FilledBelow kernelWord ram root table pageCount next)
      fun cause _ => cause = .alloc .outOfMemory ∧ base.freePages < 2 := by
  have owned : Owner.kernel ≠ .free := by decide
  simp only [buildKernel, ensures_bind, ensures_mapCause]
  apply (Memory.ensures_allocZeroed tidy owned).mono
  · rintro _ _ ⟨root, rfl, rootFree, rfl⟩
    have rootTaken := Ledger.taken_charge_single base .kernel root
    rw [show pageCount - 1 = 510 + 1 from rfl, forRange_succ, ensures_bind]
    apply (ensures_map_firstKernelPage (tidy.charge owned _) rootTaken).mono
    · rintro _ _ ⟨table, next, tableFree, rfl, filled⟩
      obtain ⟨apart, -⟩ := Ledger.apart_of_untaken_charge tableFree.untaken
      rw [Ledger.charge_charge]
      refine (ensures_forRange (fun number memory => ∃ next,
        memory = ⟨base.charge .kernel (Pi.single root 1 + Pi.single table 1), next⟩ ∧
          FilledBelow kernelWord ram root table number next) ⟨next, rfl, filled⟩ ?_).mono ?_
        fun _ _ held => held
      · rintro number _ above below ⟨current, rfl, reached⟩
        have inside : number < pageCount := by
          simp only [pageCount]
          omega
        apply (ensures_of_eq_ok (map_kernelPage_eq_ok reached (by omega) inside)).mpr
        exact ⟨_, rfl, reached.succ apart (Nat.lt_trans inside (by decide))⟩
      · rintro _ _ ⟨last, rfl, complete⟩
        exact ensures_pure.mpr ⟨root, table, last, rfl, rootFree, tableFree, rfl, complete⟩
    · rintro _ _ ⟨reason, rfl, exhausted, -⟩
      have one := Ledger.freePages_charge_single rootFree.untaken .kernel
      rw [exhausted.freePages_eq] at one
      exact ⟨congrArg _ exhausted.cause_eq, by omega⟩
  · rintro reason _ ⟨exhausted, -⟩
    exact ⟨congrArg _ exhausted.cause_eq, by rw [exhausted.freePages_eq]; decide⟩

/-! ## Spaces for processes -/

/-- The words `low` are below the process range while the taken pages keep what they hold. -/
def Lends (base : Ledger) (before : Ram) (kernel : AddressSpace) (low : Nat → UInt32) : Prop :=
  ∀ next, (∀ page, base.Taken page → Ram.SamePage before next page) →
    ∀ number < firstProcessPage, ∃ entry,
      kernel.dir.entry? next (.ofPage number) = .ok entry ∧ entry.getD 0 = low number

/-- The kernel's space, on pages that are taken, lends the kernel's words. -/
theorem lends_kernelWord {kernelRoot kernelTable : Fin pageCount}
    (kernel : ram.Spans kernelRoot kernelTable kernelWord) (rootTaken : base.Taken kernelRoot)
    (tableTaken : base.Taken kernelTable) (owner : Owner) :
    Lends base ram ⟨⟨.ofPage kernelRoot⟩, owner⟩ kernelWord := by
  intro next kept number below
  have inside : number < entryCount := Nat.lt_trans below (by decide)
  have still := kernel.congr (kept _ rootTaken) (kept _ tableTaken)
  exact ⟨_, still.entry?_ofPage inside, rfl⟩

/-- Copying an entry of the kernel's space writes its word for the page. -/
theorem copyKernelEntry_eq_ok {ledger : Ledger} {before : Ram} {number : Nat} {owner : Owner}
    {kernel : AddressSpace} {entry : Option UInt32}
    (filled : FilledBelow low before root table number ram)
    (seen : kernel.dir.entry? ram (.ofPage number) = .ok entry) (inside : number < entryCount) :
    (⟨⟨.ofPage root⟩, owner⟩ : AddressSpace).copyKernelEntry kernel number ⟨ledger, ram⟩ =
      .ok () ⟨ledger, ram.setEntry table number (entry.getD 0)⟩ := by
  have slot := dirIndex_ofPage_of_lt inside
  have index := tableIndex_ofPage_of_lt inside
  have refers : ram.RefersTo root (dirIndex (.ofPage number)) table := by
    rw [slot]
    exact filled.spans.refersTo
  have written := Directory.setEntry_eq_ok refers (entry.getD 0)
  rw [index] at written
  apply eq_ok_of_ensures
  rw [copyKernelEntry, ensures_bind, ensures_peek]
  refine ⟨_, seen, ?_⟩
  rw [ensures_mapCause, Memory.ensures_onRam]
  exact (ensures_of_eq_ok written).mpr ⟨rfl, rfl⟩

/-- A directory that has copied the entries below the process range is a space without leaves. -/
theorem built_of_filledBelow {next : Ram} (rootNew : ¬base.Taken root)
    (tableNew : ¬base.Taken table) (apart : root ≠ table)
    (filled : FilledBelow low ram root table firstProcessPage next) :
    BuiltOver low base ram ⟨root, table, fun _ => none⟩ next where
  stands := by
    rw [SpaceView.StandsOver, SpaceView.wordOver_eq_of_vacant low fun _ => rfl]
    exact filled.spans
  kept page taken := by
    apply filled.kept page
    · rintro rfl
      exact rootNew taken
    · rintro rfl
      exact tableNew taken
  rootNew := rootNew
  tableNew := tableNew
  single page _ := by
    rw [SpaceView.refs_eq_of_vacant fun _ => rfl, Pi.add_apply, Pi.single_apply, Pi.single_apply]
    by_cases isRoot : page = root
    · rw [if_pos isRoot, if_neg fun isTable => apart (isRoot.symm.trans isTable)]
      decide
    · rw [if_neg isRoot]
      split <;> decide
  openedNew _ _ impossible := by cases impossible

/-- A view of the next two free pages, the root and the page table, that has no leaves. -/
structure Blank (base : Ledger) (owner : Owner) (view : SpaceView) : Prop where
  root_nextFree : Memory.NextFree base view.root
  table_nextFree : Memory.NextFree (base.charge owner (Pi.single view.root 1)) view.table
  vacant : ∀ place, view.leaf place = none

/-- There is one view of the next two free pages. -/
theorem Blank.unique {owner : Owner} {view other : SpaceView} (blank : Blank base owner view)
    (also : Blank base owner other) : view = other := by
  rcases view with ⟨root, table, leaf⟩
  rcases other with ⟨otherRoot, otherTable, otherLeaf⟩
  obtain rfl : root = otherRoot := blank.root_nextFree.unique also.root_nextFree
  obtain rfl : table = otherTable := blank.table_nextFree.unique also.table_nextFree
  obtain rfl : leaf = otherLeaf := by
    funext place
    rw [show leaf place = none from blank.vacant place,
      show otherLeaf place = none from also.vacant place]
  rfl

theorem Blank.two_le_freePages {owner : Owner} {view : SpaceView} (blank : Blank base owner view) :
    2 ≤ base.freePages := by
  have first := Ledger.freePages_charge_single blank.root_nextFree.untaken owner
  have second := Ledger.freePages_charge_single blank.table_nextFree.untaken owner
  omega

/-- The space of a process begins with two pages and the words that another space lends it. -/
theorem ensures_ofTemplate_over (tidy : base.Tidy) {kernel : AddressSpace}
    (lends : Lends base ram kernel low) (pid : Pid) :
    (ofTemplate kernel pid).Ensures ⟨base, ram⟩
      (fun space memory => ∃ view next, space = view.space (.process pid) ∧
        Blank base (.process pid) view ∧
        memory = ⟨base.charge (.process pid) view.refs, next⟩ ∧ BuiltOver low base ram view next)
      fun cause memory => cause = .alloc .outOfMemory ∧ base.freePages < 2 ∧
        ∃ next, memory = ⟨base, next⟩ ∧ ∀ page, base.Taken page → Ram.SamePage ram next page := by
  have owned : Owner.process pid ≠ .free := by simp
  simp only [ofTemplate, ensures_bind, ensures_mapCause, ensures_onRefusal]
  apply (Memory.ensures_allocZeroed tidy owned).mono
  · rintro _ _ ⟨root, rfl, rootFree, rfl⟩
    apply (Memory.ensures_allocZeroed (tidy.charge owned _) owned).mono
    · rintro _ _ ⟨table, rfl, tableFree, rfl⟩
      obtain ⟨apart, tableNew⟩ := Ledger.apart_of_untaken_charge tableFree.untaken
      rw [Ledger.charge_charge, Memory.ensures_onRam]
      apply (ensures_of_eq_ok (Directory.setDirEntry_eq_ok (by decide) _)).mpr
      refine (ensures_forRange (fun number memory => ∃ next,
        memory = ⟨base.charge (.process pid) (Pi.single root 1 + Pi.single table 1), next⟩ ∧
          FilledBelow low ram root table number next) ⟨_, rfl, FilledBelow.zero low ram apart⟩
        ?_).mono ?_ fun _ _ held => held
      · rintro number _ _ below ⟨current, rfl, reached⟩
        have fits : number < firstProcessPage := by omega
        have inside : number < entryCount := Nat.lt_trans fits (by decide)
        obtain ⟨entry, seen, word_eq⟩ := lends current (fun page taken => reached.kept page
          (fun same => rootFree.untaken (same ▸ taken)) (fun same => tableNew (same ▸ taken)))
          number fits
        apply (ensures_of_eq_ok (copyKernelEntry_eq_ok reached seen inside)).mpr
        rw [word_eq]
        exact ⟨_, rfl, reached.succ apart inside⟩
      · rintro _ _ ⟨next, rfl, filled⟩
        refine ensures_pure.mpr ⟨⟨root, table, fun _ => none⟩, next, rfl,
          ⟨rootFree, tableFree, fun _ => rfl⟩, ?_,
          built_of_filledBelow rootFree.untaken tableNew apart filled⟩
        rw [SpaceView.refs_eq_of_vacant fun _ => rfl]
    · rintro reason _ ⟨exhausted, rfl⟩
      have one := Ledger.freePages_charge_single rootFree.untaken (.process pid)
      rw [exhausted.freePages_eq] at one
      have kept : ∀ page, base.Taken page → Ram.SamePage ram (ram.clear root) page :=
        fun page taken => Ram.samePage_clear_of_ne fun same => rootFree.untaken (same ▸ taken)
      have rootAlone : (Pi.single root 1 : Fin pageCount → Nat) = 0 + Pi.single root 1 :=
        (zero_add _).symm
      rw [rootAlone]
      apply (ensures_of_eq_ok (dropPage_eq_ok tidy 0 root)).mpr
      rw [Ledger.charge_zero]
      exact ⟨congrArg _ exhausted.cause_eq, by omega, _, rfl, kept⟩
  · rintro reason _ ⟨exhausted, rfl⟩
    exact ⟨congrArg _ exhausted.cause_eq, by rw [exhausted.freePages_eq]; decide, ram, rfl,
      fun page _ => Ram.SamePage.refl ram page⟩

/-- The space of a process begins with two pages, and without leaves. -/
theorem ensures_ofTemplate (tidy : base.Tidy) {kernelRoot kernelTable : Fin pageCount}
    {kernelOwner : Owner} (kernel : ram.Spans kernelRoot kernelTable kernelWord)
    (kernelRootTaken : base.Taken kernelRoot) (kernelTableTaken : base.Taken kernelTable)
    (pid : Pid) :
    (ofTemplate ⟨⟨.ofPage kernelRoot⟩, kernelOwner⟩ pid).Ensures ⟨base, ram⟩
      (fun space memory => ∃ view next, space = view.space (.process pid) ∧
        Blank base (.process pid) view ∧
        memory = ⟨base.charge (.process pid) view.refs, next⟩ ∧ Built base ram view next)
      fun cause memory => cause = .alloc .outOfMemory ∧ base.freePages < 2 ∧
        ∃ next, memory = ⟨base, next⟩ ∧ ∀ page, base.Taken page → Ram.SamePage ram next page :=
  ensures_ofTemplate_over tidy
    (lends_kernelWord kernel kernelRootTaken kernelTableTaken kernelOwner) pid

end AddressSpace

end PagingKernel
