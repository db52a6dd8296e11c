import PagingKernel.Proofs.Mapping.Copies

/-!
# Giving back fresh pages

A space is made, fresh pages are mapped in it, and then it is taken apart.  Memory and
its books may hold anything before that, and so may the template.

What the books have granted to the owner of the space are the parts of its tree, new
page tables included, and the pages that were mapped.  Taking the space apart walks
the process range, the page tables and the root, and gives back each of these pages
once.  It does not look for pages outside the process range, where the entries of a
space made from a template are copies, and so a fresh page that was mapped there stays
with the owner.
-/

namespace PagingKernel

open PageTable PagingKernel.Action

/-- Fresh pages are mapped in a space, one call after another, and any of the calls may be
refused.  The list tells where pages were mapped and which pages they are. -/
inductive FreshlyGrown (space : AddressSpace) (start : Memory) :
    List (VirtAddr × PhysAddr) → Memory → Prop
  | start : FreshlyGrown space start [] start
  | mapped {made : List (VirtAddr × PhysAddr)} {memory next : Memory} {va : VirtAddr}
      {pa : PhysAddr} {flags : PageFlags} (earlier : FreshlyGrown space start made memory)
      (present : flags.present = true) (ran : space.mapFresh va flags memory = .ok pa next) :
      FreshlyGrown space start ((va, pa) :: made) next
  | refused {made : List (VirtAddr × PhysAddr)} {memory next : Memory} {va : VirtAddr}
      {flags : PageFlags} {cause : AddressSpaceError}
      (earlier : FreshlyGrown space start made memory)
      (ran : space.mapFresh va flags memory = .error (.refused cause) next) :
      FreshlyGrown space start made next

/-- The pages that were mapped at certain addresses. -/
def pagesAt (made : List (VirtAddr × PhysAddr)) (there : VirtAddr → Prop) :
    Set (Fin pageCount) :=
  {page | ∃ va, (va, .ofPage page) ∈ made ∧ there va}

/-- The pages that were mapped outside the process range. -/
def leftBehind (made : List (VirtAddr × PhysAddr)) : Set (Fin pageCount) :=
  pagesAt made fun va => ¬(processStart ≤ va.raw ∧ va.raw < virtualSize)

/-- Mapping fresh pages never faults, and what was taken for them in the process range is
given back. -/
structure Unwinds (space : AddressSpace) (owner : Owner) (made : List (VirtAddr × PhysAddr))
    (before after : Memory) : Prop where
  never_faults : ∀ va flags fault stop,
    space.mapFresh va flags after ≠ .error (.faulted fault) stop
  released : ∃ final, space.release after = .ok () final ∧
    before.ledger.Grants owner (leftBehind made) final.ledger

theorem pagesAt_cons {made : List (VirtAddr × PhysAddr)} {there : VirtAddr → Prop} {va : VirtAddr}
    {page : Fin pageCount} (here : there va) :
    pagesAt ((va, .ofPage page) :: made) there = insert page (pagesAt made there) := by
  ext other
  constructor
  · rintro ⟨place, listed, inside⟩
    obtain same | old := List.mem_cons.mp listed
    · exact .inl (PhysAddr.ofPage_inj.mp (congrArg Prod.snd same))
    · exact .inr ⟨place, old, inside⟩
  · rintro (rfl | ⟨place, old, inside⟩)
    · exact ⟨va, List.mem_cons_self, here⟩
    · exact ⟨place, .tail _ old, inside⟩

/-! ## Growing -/

namespace PageTree

variable {tree grown : PageTree} {owner : Owner} {made : List (VirtAddr × PhysAddr)}
  {before after next : Memory} {va : VirtAddr} {page : Fin pageCount} {flags : PageFlags}

/-- What a space and the books come to after fresh pages were mapped. -/
structure Furnished (tree : PageTree) (owner : Owner) (made : List (VirtAddr × PhysAddr))
    (before after : Memory) : Prop where
  bears : after.ram.Bears tree
  grants : before.ledger.Grants owner (tree.parts ∪ pagesAt made fun _ => True) after.ledger
  are_pages : ∀ va pa, (va, pa) ∈ made →
    va.isAligned = true ∧ ∃ page : Fin pageCount, pa = .ofPage page
  apart : ∀ page ∈ pagesAt made fun _ => True, page ∉ tree.parts
  /-- No page was mapped twice. -/
  unique : ∀ first second pa, (first, pa) ∈ made → (second, pa) ∈ made → first = second
  reads : ∀ number pa, firstProcessPage ≤ number → number < virtualPageCount →
    ((tree.translate after.ram (.ofPage number)).map (·.pa) = some pa ↔
      (.ofPage number, pa) ∈ made)

theorem Furnished.stands (furnished : tree.Furnished owner made before after) :
    tree.Stands after :=
  ⟨furnished.bears, fun _ part => furnished.grants.taken (.inl part)⟩

theorem Furnished.taken (furnished : tree.Furnished owner made before after)
    (member : (va, .ofPage page) ∈ made) : after.ledger.Taken page :=
  furnished.grants.taken (.inr ⟨va, member, trivial⟩)

theorem Templated.furnished {kernel : AddressSpace}
    (templated : tree.Templated owner kernel firstProcessPage before after) :
    tree.Furnished owner [] before after where
  bears := templated.bears
  grants := by
    have nothing : pagesAt [] (fun _ => True) = ∅ := by simp [pagesAt]
    rw [nothing, Set.union_empty]
    exact templated.grants
  are_pages _ _ impossible := by cases impossible
  apart _ := by
    rintro ⟨_, impossible, -⟩
    cases impossible
  unique _ _ _ impossible := by cases impossible
  reads number pa above below := by
    rw [templated.high number above below]
    simp

theorem Furnished.prepares (furnished : tree.Furnished owner made before after)
    (prepares : tree.Prepares grown owner after next) : grown.Furnished owner made before next where
  bears := prepares.bears
  grants := by
    have granted := furnished.grants.trans prepares.grants
    rw [Set.union_right_comm, Set.union_sdiff_cancel prepares.larger.parts_subset] at granted
    exact granted
  are_pages := furnished.are_pages
  apart page mapped part := by
    have taken := furnished.grants.taken (.inr mapped)
    exact prepares.grants.untaken ⟨part, furnished.apart page mapped⟩ taken
  unique := furnished.unique
  reads number pa above below := by
    rw [prepares.translate_eq]
    exact furnished.reads number pa above below

/-- The page number that a page was mapped at translates to it, and all others as before. -/
theorem MappedFresh.translate_ofPage
    (mapped : tree.MappedFresh grown owner va page flags after next)
    (present : flags.present = true) {number : Nat} (below : number < virtualPageCount) :
    grown.translate next.ram (.ofPage number) =
      if va = .ofPage number then some ⟨.ofPage page, flags⟩
      else tree.translate after.ram (.ofPage number) := by
  have low : (VirtAddr.ofPage number).raw < addressLimit := by
    simp only [VirtAddr.raw_ofPage, pageSize, addressLimit, virtualPageCount] at *
    omega
  have aligned := VirtAddr.isAligned_iff.mp mapped.bounds.va_aligned
  rw [mapped.translate_eq _ low, remapped]
  by_cases here : va = .ofPage number
  · rw [if_pos here, here, if_pos (by simp [pageSize]), if_pos present]
    have base : pageFloor (VirtAddr.ofPage number).raw - (VirtAddr.ofPage number).raw = 0 := by
      simp only [pageFloor, VirtAddr.raw_ofPage, pageSize]
      omega
    rw [base, Nat.add_zero]
  · have elsewhere : va.raw ≠ number * pageSize := fun same => here (congrArg VirtAddr.mk same)
    rw [if_neg here, if_neg]
    simp only [VirtAddr.raw_ofPage, pageSize] at *
    omega

/-- Where a fresh page can be mapped, none was mapped before. -/
theorem Furnished.notMem_of_vacant (furnished : tree.Furnished owner made before after)
    {number : Nat} (vacant : ¬tree.Conflicts after.ram (.ofPage number) (.ofPage page) 0)
    (new : ∀ other, (other, PhysAddr.ofPage page) ∉ made) (above : firstProcessPage ≤ number)
    (below : number < virtualPageCount) (pa : PhysAddr) : (VirtAddr.ofPage number, pa) ∉ made := by
  intro old
  obtain ⟨existing, found, rfl⟩ :=
    Option.map_eq_some_iff.mp ((furnished.reads number pa above below).mpr old)
  rw [← VirtAddr.advance_zero (.ofPage number)] at found
  refine vacant ⟨existing, found, fun same => ?_⟩
  have sum := (PhysAddr.add?_eq_some_iff.mp same).1
  rw [Nat.zero_mul, Nat.add_zero] at sum
  have isPage : PhysAddr.ofPage page = existing.pa := congrArg PhysAddr.mk sum
  exact new _ (isPage ▸ old)

theorem Furnished.mapped (furnished : tree.Furnished owner made before after)
    (mapped : tree.MappedFresh grown owner va page flags after next)
    (present : flags.present = true) :
    grown.Furnished owner ((va, .ofPage page) :: made) before next := by
  have untaken : ¬after.ledger.Taken page := mapped.grants.untaken (.inl rfl)
  have new (other : VirtAddr) : (other, PhysAddr.ofPage page) ∉ made :=
    fun member => untaken (furnished.taken member)
  have pages : pagesAt ((va, .ofPage page) :: made) (fun _ => True) =
      insert page (pagesAt made fun _ => True) := pagesAt_cons trivial
  refine ⟨mapped.bears, ?_, ?_, ?_, ?_, ?_⟩
  · have granted := furnished.grants.trans mapped.grants
    rw [Set.union_insert, Set.union_right_comm,
      Set.union_sdiff_cancel mapped.larger.parts_subset, ← Set.union_insert, ← pages] at granted
    exact granted
  · rintro other pa (_ | ⟨_, old⟩)
    · exact ⟨mapped.bounds.va_aligned, page, rfl⟩
    · exact furnished.are_pages other pa old
  · rw [pages]
    rintro other (rfl | old) part
    · exact mapped.page_apart part
    · have taken := furnished.grants.taken (.inr old)
      exact mapped.grants.untaken (.inr ⟨part, furnished.apart other old⟩) taken
  · rintro first second pa (_ | ⟨_, isFirst⟩) (_ | ⟨_, isSecond⟩)
    · rfl
    · exact absurd isSecond (new second)
    · exact absurd isFirst (new first)
    · exact furnished.unique first second pa isFirst isSecond
  · intro number pa above below
    rw [mapped.translate_ofPage present below, List.mem_cons, Prod.mk.injEq]
    by_cases here : va = .ofPage number
    · have vacant : (VirtAddr.ofPage number, pa) ∉ made := fun old =>
        furnished.notMem_of_vacant (here ▸ mapped.vacant) new above below pa old
      rw [if_pos here, Option.map_some, Option.some.injEq]
      exact ⟨fun same => .inl ⟨here.symm, same.symm⟩, fun either =>
        (either.resolve_right vacant).2.symm⟩
    · rw [if_neg here, furnished.reads number pa above below]
      exact ⟨.inr, fun either => either.resolve_left fun same => here same.1.symm⟩

end PageTree

theorem FreshlyGrown.exists_furnished {tree : PageTree} {owner : Owner} {kernel : AddressSpace}
    {made : List (VirtAddr × PhysAddr)} {before memory after : Memory}
    (templated : tree.Templated owner kernel firstProcessPage before memory)
    (grown : FreshlyGrown (tree.space owner) memory made after) :
    ∃ last : PageTree, last.space owner = tree.space owner ∧
      last.Furnished owner made before after := by
  induction grown with
  | start => exact ⟨tree, rfl, templated.furnished⟩
  | @mapped _ _ _ va _ flags _ present ran ih =>
      obtain ⟨last, same, furnished⟩ := ih
      rw [← same] at ran
      obtain ⟨page, next, rfl, mapped⟩ :=
        (PageTree.ensures_mapFresh furnished.stands owner va flags).done ran
      exact ⟨next, (mapped.larger.space_eq owner).trans same, furnished.mapped mapped present⟩
  | @refused _ _ _ va flags _ _ ran ih =>
      obtain ⟨last, same, furnished⟩ := ih
      rw [← same] at ran
      obtain ⟨next, prepares⟩ :=
        (PageTree.ensures_mapFresh furnished.stands owner va flags).refused ran
      exact ⟨next, (prepares.larger.space_eq owner).trans same, furnished.prepares prepares⟩

/-! ## Giving back -/

namespace PageTree

variable {tree : PageTree} {owner : Owner} {made : List (VirtAddr × PhysAddr)}
  {before after : Memory} {base ledger books : Ledger} {ram : Ram} {rest : Set (Fin pageCount)}

/-- The pages that are left when a walk over the process range has come to a page number. -/
def unwalked (made : List (VirtAddr × PhysAddr)) (number : Nat) : Set (Fin pageCount) :=
  pagesAt made fun va => va.raw < processStart ∨ number * pageSize ≤ va.raw

theorem unwalked_first (made : List (VirtAddr × PhysAddr)) :
    unwalked made firstProcessPage = pagesAt made fun _ => True := by
  refine congrArg (pagesAt made) (funext fun va => eq_true ?_)
  simp only [processStart, firstProcessPage, pageSize]
  omega

theorem unwalked_last (made : List (VirtAddr × PhysAddr)) :
    unwalked made (firstProcessPage + processPageCount) = leftBehind made := by
  refine congrArg (pagesAt made) (funext fun va => propext ?_)
  simp only [processStart, virtualSize, firstProcessPage, processPageCount, pageSize]
  omega

theorem next_page_le {raw number : Nat} (aligned : raw % pageSize = 0)
    (apart : raw ≠ number * pageSize) (beyond : number * pageSize ≤ raw) :
    (number + 1) * pageSize ≤ raw := by
  obtain ⟨count, rfl⟩ := Nat.dvd_of_mod_eq_zero aligned
  rw [Nat.mul_comm pageSize] at *
  have reached : number ≤ count := Nat.le_of_mul_le_mul_right beyond (by decide)
  refine Nat.mul_le_mul_right _ (Nat.lt_of_le_of_ne reached ?_)
  rintro rfl
  exact apart rfl

theorem Furnished.unwalked_succ (furnished : tree.Furnished owner made before after) {number : Nat}
    (above : firstProcessPage ≤ number) : unwalked made (number + 1) =
      unwalked made number \ {page | (VirtAddr.ofPage number, .ofPage page) ∈ made} := by
  ext page
  constructor
  · rintro ⟨va, listed, there⟩
    refine ⟨⟨va, listed, there.imp_right fun beyond => ?_⟩, fun here => ?_⟩
    · exact Nat.le_trans (Nat.mul_le_mul_right _ (Nat.le_succ number)) beyond
    · obtain rfl := furnished.unique _ _ _ listed here
      simp only [VirtAddr.raw_ofPage, processStart, firstProcessPage, pageSize] at *
      omega
  · rintro ⟨⟨va, listed, there⟩, elsewhere⟩
    have aligned := VirtAddr.isAligned_iff.mp (furnished.are_pages va _ listed).1
    have apart : va.raw ≠ number * pageSize := by
      intro same
      obtain rfl : va = .ofPage number := congrArg VirtAddr.mk same
      exact elsewhere listed
    exact ⟨va, listed, there.imp_right (next_page_le aligned apart)⟩

/-- The walk gives back the page that is mapped at the number that it has come to. -/
theorem Furnished.ensures_dropMapping
    (furnished : tree.Furnished owner made before ⟨ledger, ram⟩) {number : Nat}
    (above : firstProcessPage ≤ number) (below : number < virtualPageCount)
    (grants : before.ledger.Grants owner (tree.parts ∪ unwalked made number) books) :
    ((tree.space owner).dropMapping number).Ensures ⟨books, ram⟩
      (fun _ next => ∃ later, next = ⟨later, ram⟩ ∧
        before.ledger.Grants owner (tree.parts ∪ unwalked made (number + 1)) later)
      fun _ _ => False := by
  have reads (pa : PhysAddr) := furnished.reads number pa above below
  rw [PageTree.ensures_dropMapping furnished.bears, furnished.unwalked_succ above]
  cases found : tree.translate ram (.ofPage number) with
  | none =>
      have nowhere : {page : Fin pageCount | (VirtAddr.ofPage number, .ofPage page) ∈ made} =
          ∅ := by
        refine Set.eq_empty_of_forall_notMem fun page here => ?_
        have mapped := (reads _).mpr here
        rw [found, Option.map_none] at mapped
        exact Option.some_ne_none _ mapped.symm
      rw [nowhere, Set.sdiff_empty]
      exact ⟨books, rfl, grants⟩
  | some mapping =>
      have here := (reads mapping.pa).mp (by rw [found]; rfl)
      obtain ⟨-, page, onPage⟩ := furnished.are_pages _ _ here
      rw [onPage] at here
      have alone : {other : Fin pageCount | (VirtAddr.ofPage number, .ofPage other) ∈ made} =
          {page} := by
        refine Set.eq_singleton_iff_unique_mem.mpr ⟨here, fun other also => ?_⟩
        have same := (reads _).mpr also
        rw [found, Option.map_some, onPage] at same
        exact (PhysAddr.ofPage_inj.mp (Option.some.inj same)).symm
      have left : page ∈ unwalked made number := ⟨_, here, .inr (Nat.le_refl _)⟩
      have notPart : page ∉ tree.parts := furnished.apart page ⟨_, here, trivial⟩
      have given := grants.setEntry_unowned (.inr left)
      rw [Set.union_sdiff_distrib, Set.sdiff_singleton_eq_self notPart] at given
      dsimp only
      rw [onPage, alone, ensures_of_eq_ok
        (AddressSpace.dropPage_single (grants.granted page (.inr left)).2)]
      exact ⟨_, rfl, given⟩

/-- The pages of the tables that were given back. -/
def givenBack (earlier : List (Nat × PhysAddr)) : Set (Fin pageCount) :=
  {page | ∃ slot, (slot, .ofPage page) ∈ earlier}

/-- Giving back a page table makes one page less of the tree. -/
theorem ensures_dropTable {earlier later : List (Nat × PhysAddr)} {slot : Nat} {pa : PhysAddr}
    (split : tree.listed = earlier ++ (slot, pa) :: later)
    (grants : base.Grants owner ((tree.parts ∪ rest) \ givenBack earlier) books) :
    (AddressSpace.dropPage pa).Ensures ⟨books, ram⟩
      (fun _ next => ∃ final, next = ⟨final, ram⟩ ∧
        base.Grants owner ((tree.parts ∪ rest) \ givenBack (earlier ++ [(slot, pa)])) final)
      fun _ _ => False := by
  have listed : (slot, pa) ∈ tree.listed := split ▸ List.mem_append_right _ List.mem_cons_self
  obtain ⟨page, found, rfl⟩ := mem_listed_iff.mp listed
  have notYet : page ∉ givenBack earlier := by
    rintro ⟨other, old⟩
    have alsoListed : (other, PhysAddr.ofPage page) ∈ tree.listed :=
      split ▸ List.mem_append_left _ old
    obtain ⟨same, alsoFound, isPage⟩ := mem_listed_iff.mp alsoListed
    obtain rfl := PhysAddr.ofPage_inj.mp isPage
    obtain rfl := tree.table_injective _ _ page alsoFound found
    have twice := tree.nodup_listed
    rw [split] at twice
    exact (List.nodup_append.mp twice).2.2 _ old _ List.mem_cons_self rfl
  have held : page ∈ (tree.parts ∪ rest) \ givenBack earlier :=
    ⟨.inl (table_mem_parts found), notYet⟩
  have more : givenBack (earlier ++ [(slot, .ofPage page)]) = givenBack earlier ∪ {page} := by
    ext other
    simp [givenBack, exists_or, PhysAddr.ofPage_inj, or_comm]
  rw [ensures_of_eq_ok (AddressSpace.dropPage_single (grants.granted page held).2), more]
  refine ⟨_, rfl, ?_⟩
  rw [← Set.sdiff_sdiff]
  exact grants.setEntry_unowned held

theorem parts_givenBack (apart : ∀ page ∈ rest, page ∉ tree.parts) :
    (tree.parts ∪ rest) \ givenBack tree.listed = insert tree.root rest := by
  ext page
  constructor
  · rintro ⟨(isRoot | ⟨slot, found⟩) | left, notBack⟩
    · exact .inl isRoot
    · exact absurd ⟨slot, mem_listed_iff.mpr ⟨page, found, rfl⟩⟩ notBack
    · exact .inr left
  · intro stays
    refine ⟨stays.imp_left .inl, ?_⟩
    rintro ⟨slot, listed⟩
    obtain ⟨same, found, isPage⟩ := mem_listed_iff.mp listed
    obtain rfl := PhysAddr.ofPage_inj.mp isPage
    obtain isRoot | left := stays
    · exact tree.root_apart slot page found isRoot
    · exact apart page left (table_mem_parts found)

theorem ensures_dropRoot (owner : Owner) (apart : tree.root ∉ rest)
    (grants : base.Grants owner (insert tree.root rest) books) :
    (AddressSpace.dropPage (tree.space owner).root).Ensures ⟨books, ram⟩
      (fun _ final => base.Grants owner rest final.ledger) fun _ _ => False := by
  rw [show (tree.space owner).root = .ofPage tree.root from rfl,
    ensures_of_eq_ok (AddressSpace.dropPage_single (grants.granted _ (.inl rfl)).2)]
  have given := grants.setEntry_unowned (.inl rfl)
  rw [Set.insert_sdiff_self_of_notMem apart] at given
  exact given

/-- Taking a space apart gives back all that was taken for it in the process range. -/
theorem Furnished.ensures_release
    (furnished : tree.Furnished owner made before ⟨ledger, ram⟩) :
    (tree.space owner).release.Ensures ⟨ledger, ram⟩
      (fun _ final => before.ledger.Grants owner (leftBehind made) final.ledger)
      fun _ _ => False := by
  have apart : ∀ page ∈ leftBehind made, page ∉ tree.parts := by
    rintro page ⟨va, listed, -⟩
    exact furnished.apart page ⟨va, listed, trivial⟩
  rw [AddressSpace.release, ensures_bind]
  refine (ensures_forRange (fun number state => ∃ books, state = ⟨books, ram⟩ ∧
    before.ledger.Grants owner (tree.parts ∪ unwalked made number) books) ?_ ?_).mono ?_
      fun _ _ impossible => impossible
  · rw [unwalked_first]
    exact ⟨ledger, rfl, furnished.grants⟩
  · rintro number _ above below ⟨books, rfl, grants⟩
    refine furnished.ensures_dropMapping above ?_ grants
    simp only [virtualPageCount, firstProcessPage, processPageCount] at *
    omega
  · rintro _ _ ⟨books, rfl, grants⟩
    rw [unwalked_last] at grants
    rw [ensures_bind, ensures_peek]
    refine ⟨_, furnished.bears.tables_eq, ?_⟩
    rw [ensures_bind]
    refine (ensures_forEach (fun earlier state => ∃ later, state = ⟨later, ram⟩ ∧
      before.ledger.Grants owner ((tree.parts ∪ leftBehind made) \ givenBack earlier) later)
        ?_ ?_).mono ?_ fun _ _ impossible => impossible
    · rw [show givenBack [] = ∅ by simp [givenBack], Set.sdiff_empty]
      exact ⟨books, rfl, grants⟩
    · rintro earlier ⟨slot, pa⟩ later _ split ⟨now, rfl, held⟩
      exact ensures_dropTable split held
    · rintro _ _ ⟨now, rfl, held⟩
      rw [parts_givenBack apart] at held
      exact ensures_dropRoot owner (fun left => apart _ left tree.root_mem_parts) held

end PageTree

theorem FreshlyGrown.exists_release {tree : PageTree} {owner : Owner} {kernel : AddressSpace}
    {made : List (VirtAddr × PhysAddr)} {before memory after : Memory}
    (templated : tree.Templated owner kernel firstProcessPage before memory)
    (grown : FreshlyGrown (tree.space owner) memory made after) :
    ∃ final, (tree.space owner).release after = .ok () final ∧
      before.ledger.Grants owner (leftBehind made) final.ledger := by
  obtain ⟨last, same, furnished⟩ := grown.exists_furnished templated
  obtain ⟨ledger, ram⟩ := after
  rw [← same]
  rcases furnished.ensures_release.cases with ⟨_, final, ran, granted⟩ | ⟨_, _, -, impossible⟩
  · exact ⟨final, ran, granted⟩
  · exact impossible.elim

/-- Whatever fresh pages were mapped, taking the space apart gives back what was taken for it. -/
theorem AddressSpace.fresh_pages_are_returned {kernel space : AddressSpace} {pid : Pid}
    {before memory after : Memory} {made : List (VirtAddr × PhysAddr)}
    (created : AddressSpace.ofTemplate kernel pid before = .ok space memory)
    (grown : FreshlyGrown space memory made after) :
    Unwinds space (.process pid) made before after := by
  obtain ⟨tree, rfl, templated⟩ := (PageTree.ends_ofTemplate before kernel pid).done created
  refine ⟨fun va flags fault stop => ?_, grown.exists_release templated⟩
  obtain ⟨last, same, furnished⟩ := grown.exists_furnished templated
  rw [← same]
  exact (PageTree.ensures_mapFresh furnished.stands (.process pid) va flags).not_faulted

/-- In a space that was just made, a fresh page goes to any page number of the first region that
is not the kernel's. -/
theorem Kernel.FirstSpace.exists_mapFresh {start before memory : Memory} {kernel : AddressSpace}
    {view : SpaceView} (first : FirstSpace start before kernel view memory) {number : Nat}
    (above : firstProcessPage ≤ number) (inside : number < entryCount) (flags : PageFlags) :
    ∃ (page : Fin pageCount) (after : Memory),
      (view.space (.process (.ofIndex 1))).mapFresh (.ofPage number) flags memory =
        .ok (.ofPage page) after := by
  obtain ⟨ledger, ram⟩ := memory
  have owned : Owner.process (.ofIndex 1) ≠ .free := by simp
  have vacant : decodeEntry (ram.entry view.table number) = none := by
    rw [first.stands.entries number inside]
    rcases SpaceView.number_cases number with below | ⟨place, rfl⟩ | beyond
    · omega
    · rw [SpaceView.wordOver_placeNumber, first.vacant]
      exact decodeEntry_zero
    · rw [SpaceView.wordOver_of_ge _ _ beyond]
      exact decodeEntry_zero
  rcases (AddressSpace.ensures_mapFresh_lowPage first.tidy owned inside first.stands.refersTo
    first.rootTaken first.tableTaken vacant flags).cases with
    ⟨_, after, ran, page, rfl, -⟩ | ⟨_, _, -, reason, -, full, -⟩
  · exact ⟨page, after, ran⟩
  · exact absurd full.freePages_eq (Nat.ne_of_gt first.room)

/-- Say, a page at the start of the process range. -/
theorem AddressSpace.fresh_page_is_returned :
    ∃ (kernel space : AddressSpace) (before memory after : Memory) (page : Fin pageCount),
      AddressSpace.ofTemplate kernel (.ofIndex 1) before = .ok space memory ∧
      FreshlyGrown space memory [(⟨processStart⟩, .ofPage page)] after ∧
      Unwinds space (.process (.ofIndex 1)) [(⟨processStart⟩, .ofPage page)] before after := by
  obtain ⟨start, before, kernel, view, memory, first⟩ := Kernel.exists_firstSpace
  obtain ⟨page, after, ran⟩ := first.exists_mapFresh (Nat.le_refl _) (by decide) .userRW
  have grown : FreshlyGrown (view.space (.process (.ofIndex 1))) memory
      [(⟨processStart⟩, .ofPage page)] after := .mapped .start rfl ran
  exact ⟨kernel, _, before, memory, after, page, first.made, grown,
    AddressSpace.fresh_pages_are_returned first.made grown⟩

/-- A page that is mapped just after the process range is not given back. -/
theorem AddressSpace.fresh_page_is_left_behind :
    ∃ (kernel space : AddressSpace) (before memory after final : Memory) (page : Fin pageCount),
      AddressSpace.ofTemplate kernel (.ofIndex 1) before = .ok space memory ∧
      space.mapFresh ⟨virtualSize⟩ .userRW memory = .ok (.ofPage page) after ∧
      space.release after = .ok () final ∧ before.ledger.entry page = .unowned ∧
      final.ledger.entry page = ⟨.process (.ofIndex 1), 1⟩ := by
  obtain ⟨start, before, kernel, view, memory, first⟩ := Kernel.exists_firstSpace
  obtain ⟨page, after, ran⟩ := first.exists_mapFresh
    (show firstProcessPage ≤ virtualSize / pageSize by decide) (by decide) .userRW
  have grown : FreshlyGrown (view.space (.process (.ofIndex 1))) memory
      [(⟨virtualSize⟩, .ofPage page)] after := .mapped .start rfl ran
  obtain ⟨tree, same, templated⟩ := (PageTree.ends_ofTemplate before kernel _).done first.made
  rw [same] at ran grown
  obtain ⟨final, released, granted⟩ := grown.exists_release templated
  have left : page ∈ leftBehind [(⟨virtualSize⟩, .ofPage page)] :=
    ⟨⟨virtualSize⟩, List.mem_singleton_self _, fun inside => Nat.lt_irrefl _ inside.2⟩
  exact ⟨kernel, _, before, memory, after, final, page, same ▸ first.made, ran, released,
    granted.granted page left⟩

end PagingKernel
