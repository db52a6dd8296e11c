import PagingKernel.Proofs.Ledger.Grant
import PagingKernel.Proofs.PageTable.Range

/-!
# Spaces that grow

What mapping does to a space with any number of page tables, whatever the range.
A tree that stands in memory has all its parts taken.  Mapping first makes sure that
no page of the range maps another page, then installs the page tables that are
missing, each of them a cleared page that nobody had, and only then writes entries.
So a refusal leaves every translation as it was, and all that it may leave behind
are empty page tables (`PageTree.Prepares`).

`PageTree.Grows` is what both outcomes have in common, and the frame of every other
space: the pages taken by it are new, and no page that was taken is written to
except the parts of the tree.
-/

namespace PagingKernel

open PageTable PagingKernel.Action

namespace PageTree

/-- The space with the directory of a tree. -/
def space (tree : PageTree) (owner : Owner) : AddressSpace :=
  ⟨tree.dir, owner⟩

/-- Memory holds the directory, and its parts are taken. -/
structure Stands (tree : PageTree) (memory : Memory) : Prop where
  bears : memory.ram.Bears tree
  taken : ∀ page ∈ tree.parts, memory.ledger.Taken page

/-- A tree grows: new parts are among the pages `held` that the owner was granted meanwhile. -/
structure Grows (tree grown : PageTree) (owner : Owner) (held : Set (Fin pageCount))
    (before after : Memory) : Prop where
  larger : tree.Extends grown
  bears : after.ram.Bears grown
  grants : before.ledger.Grants owner held after.ledger
  parts_held : ∀ page ∈ grown.parts, page ∈ tree.parts ∨ page ∈ held
  untouched : ∀ page ∉ grown.parts, before.ledger.Taken page →
    Ram.SamePage before.ram after.ram page

/-- A tree grows by empty page tables only, so that it translates as before. -/
structure Prepares (tree grown : PageTree) (owner : Owner) (before after : Memory) : Prop
    extends tree.Grows grown owner (grown.parts \ tree.parts) before after where
  translate_eq : ∀ va, grown.translate after.ram va = tree.translate before.ram va
  tables_same : ∀ slot page, tree.table slot = some page →
    Ram.SamePage before.ram after.ram page
  cleared : ∀ slot page, grown.table slot = some page → tree.table slot = none →
    ∀ index < entryCount, after.ram.entry page index = 0

variable {tree grown : PageTree} {owner : Owner} {held : Set (Fin pageCount)}
  {before middle after memory : Memory} {ledger : Ledger} {ram : Ram} {page : Fin pageCount}

theorem Extends.space_eq (larger : tree.Extends grown) (owner : Owner) :
    grown.space owner = tree.space owner := by
  rw [space, space, dir, dir, larger.root_eq]

theorem Stands.lookup_eq (stands : tree.Stands memory) (owner : Owner) (va : VirtAddr) :
    (tree.space owner).lookup memory va = .ok (tree.translate memory.ram va) :=
  stands.bears.lookup_eq va

/-- A tree stands as long as its parts are taken and hold what they held. -/
theorem Stands.congr (stands : tree.Stands before)
    (kept : ∀ page ∈ tree.parts, after.ledger.Taken page ∧
      Ram.SamePage before.ram after.ram page) : tree.Stands after where
  bears := stands.bears.congr fun page part => (kept page part).2
  taken page part := (kept page part).1

/-- A page that nobody has is no part of a tree that stands. -/
theorem Stands.notMem_parts (stands : tree.Stands memory)
    (unowned : memory.ledger.entry page = .unowned) : page ∉ tree.parts := by
  intro part
  have referenced := stands.taken page part
  rw [Ledger.Taken, unowned] at referenced
  exact referenced rfl

theorem Grows.stands (grows : tree.Grows grown owner held before after)
    (stands : tree.Stands before) : grown.Stands after where
  bears := grows.bears
  taken page part := by
    rcases grows.parts_held page part with old | new
    · exact grows.grants.taken_of_taken (stands.taken page old)
    · exact grows.grants.taken new

/-- What is taken and no part of the tree stays as it is. -/
theorem Grows.spares (grows : tree.Grows grown owner held before after)
    (taken : before.ledger.Taken page) (apart : page ∉ tree.parts) :
    after.ledger.Taken page ∧ Ram.SamePage before.ram after.ram page := by
  refine ⟨grows.grants.taken_of_taken taken, grows.untouched page (fun part => ?_) taken⟩
  exact grows.grants.untaken ((grows.parts_held page part).resolve_left apart) taken

theorem Grows.trans {final : PageTree} {more : Set (Fin pageCount)}
    (early : tree.Grows grown owner held before middle)
    (late : grown.Grows final owner more middle after) :
    tree.Grows final owner (held ∪ more) before after where
  larger := early.larger.trans late.larger
  bears := late.bears
  grants := early.grants.trans late.grants
  parts_held page part := by
    rcases late.parts_held page part with old | new
    · exact (early.parts_held page old).imp_right .inl
    · exact .inr (.inr new)
  untouched page apart taken := by
    have notYet : page ∉ grown.parts := fun part => apart (late.larger.parts_subset part)
    exact (early.untouched page notYet taken).trans
      (late.untouched page apart (early.grants.taken_of_taken taken))

theorem Prepares.refl (stands : tree.Stands memory) (owner : Owner) :
    tree.Prepares tree owner memory memory where
  larger := .refl tree
  bears := stands.bears
  grants := by
    rw [Set.sdiff_self]
    exact .refl memory.ledger owner
  parts_held _ part := .inl part
  untouched page _ _ := Ram.SamePage.refl _ page
  translate_eq _ := rfl
  tables_same _ page _ := Ram.SamePage.refl _ page
  cleared slot page found absent := by
    rw [absent] at found
    cases found

theorem Prepares.trans {final : PageTree} (early : tree.Prepares grown owner before middle)
    (late : grown.Prepares final owner middle after) :
    tree.Prepares final owner before after where
  toGrows := by
    have both := early.toGrows.trans late.toGrows
    rw [Set.union_comm,
      Set.sdiff_union_sdiff_cancel late.larger.parts_subset early.larger.parts_subset] at both
    exact both
  translate_eq va := (late.translate_eq va).trans (early.translate_eq va)
  tables_same slot page found := (early.tables_same slot page found).trans
    (late.tables_same slot page (early.larger.table_eq slot page found))
  cleared slot page found absent index within := by
    cases between : grown.table slot with
    | none => exact late.cleared slot page found between index within
    | some table =>
        have same := (late.larger.table_eq slot table between).symm.trans found
        obtain rfl := Option.some.inj same
        rw [← (late.tables_same slot table between).entry_eq within]
        exact early.cleared slot table between absent index within

/-! ## Ranges that are occupied -/

/-- Page `i` of a range at `va` maps a page that is not page `i` of the range at `pa`. -/
def Conflicts (tree : PageTree) (ram : Ram) (va : VirtAddr) (pa : PhysAddr) (i : Nat) : Prop :=
  ∃ existing, tree.translate ram (va.advance i) = some existing ∧
    pa.add? (i * pageSize) ≠ some existing.pa

variable {va : VirtAddr} {pa : PhysAddr} {len : Nat}

theorem ensures_requireVacant (bears : ram.Bears tree) (owner : Owner) (va : VirtAddr)
    (pa : PhysAddr) (i : Nat) :
    ((tree.space owner).requireVacant va pa i).Ensures ⟨ledger, ram⟩
      (fun _ memory => memory = ⟨ledger, ram⟩ ∧ ¬tree.Conflicts ram va pa i)
      fun cause memory => memory = ⟨ledger, ram⟩ ∧ tree.Conflicts ram va pa i ∧
        cause = .mapping (.occupied (va.advance i)) := by
  rw [AddressSpace.requireVacant, ensures_bind, ensures_peek]
  refine ⟨_, bears.lookup_eq (va.advance i), ?_⟩
  cases found : tree.translate ram (va.advance i) with
  | none =>
      refine ensures_pure.mpr ⟨rfl, ?_⟩
      rintro ⟨existing, exists_, -⟩
      rw [found] at exists_
      cases exists_
  | some existing =>
      dsimp only
      split
      · rename_i other
        exact ensures_refuse.mpr ⟨rfl, ⟨existing, found, other⟩, rfl⟩
      · rename_i same
        refine ensures_pure.mpr ⟨rfl, ?_⟩
        rintro ⟨mapping, also, other⟩
        rw [found] at also
        cases also
        exact same other

/-- The pages of a range are looked at in order, up to the first that is occupied. -/
theorem ensures_allVacant (bears : ram.Bears tree) (owner : Owner) (va : VirtAddr)
    (pa : PhysAddr) (count : Nat) :
    (forRange 0 count ((tree.space owner).requireVacant va pa)).Ensures ⟨ledger, ram⟩
      (fun _ memory => memory = ⟨ledger, ram⟩ ∧ ∀ i < count, ¬tree.Conflicts ram va pa i)
      fun cause memory => memory = ⟨ledger, ram⟩ ∧ ∃ i < count, tree.Conflicts ram va pa i ∧
        (∀ j < i, ¬tree.Conflicts ram va pa j) ∧
          cause = .mapping (.occupied (va.advance i)) := by
  refine (ensures_forRange (fun done memory => memory = ⟨ledger, ram⟩ ∧
    ∀ i < done, ¬tree.Conflicts ram va pa i) ⟨rfl, by simp⟩ ?_).mono ?_ fun _ _ held => held
  · rintro i _ - inside ⟨rfl, vacant⟩
    refine (ensures_requireVacant bears owner va pa i).mono ?_ ?_
    · rintro _ _ ⟨rfl, free⟩
      refine ⟨rfl, fun j below => ?_⟩
      obtain earlier | rfl := Nat.lt_succ_iff_lt_or_eq.mp below
      · exact vacant j earlier
      · exact free
    · rintro _ _ ⟨rfl, conflict, rfl⟩
      exact ⟨rfl, i, by omega, conflict, vacant, rfl⟩
  · rintro _ _ ⟨rfl, vacant⟩
    rw [Nat.zero_add] at vacant
    exact ⟨rfl, vacant⟩

/-! ## Installing page tables -/

/-- A cleared page that nobody had becomes the page table of a slot that had none. -/
theorem prepares_install {slot : Nat} (stands : tree.Stands memory)
    (within : slot < entryCount) (absent : tree.table slot = none)
    (unowned : memory.ledger.entry page = .unowned) (owner : Owner) :
    tree.Prepares (tree.install slot page within (stands.notMem_parts unowned)) owner memory
      ⟨(memory.claimed page owner).ledger,
        (memory.ram.clear page).setEntry tree.root slot (encodeEntry (.ofPage page) .userRW)⟩ where
  larger := extends_install absent
  bears := stands.bears.install
  grants := by
    rw [parts_install absent, Set.insert_sdiff_of_notMem _ (stands.notMem_parts unowned),
      Set.sdiff_self, insert_empty_eq]
    exact Memory.grants_claimed unowned owner
  parts_held other part := by
    by_cases old : other ∈ tree.parts
    · exact .inl old
    · exact .inr ⟨part, old⟩
  untouched other apart taken := by
    rw [parts_install absent] at apart
    have notPage : other ≠ page := fun same => apart (.inl same)
    have notRoot : other ≠ tree.root := fun same => apart (.inr (.inl same))
    exact (Ram.samePage_clear_of_ne notPage).trans (Ram.samePage_setEntry_of_ne within notRoot _)
  translate_eq va := translate_install absent _ va
  tables_same other table found := by
    have notPage : table ≠ page := fun same =>
      stands.notMem_parts unowned (same ▸ table_mem_parts found)
    exact (Ram.samePage_clear_of_ne notPage).trans
      (Ram.samePage_setEntry_of_ne within (tree.root_apart other table found) _)
  cleared other table found new index inside := by
    obtain rfl : other = slot := by
      by_contra elsewhere
      rw [table_install_of_ne elsewhere, new] at found
      cases found
    rw [table_install_self] at found
    obtain rfl := Option.some.inj found
    have notRoot : page ≠ tree.root := fun same => stands.notMem_parts unowned (.inl same)
    rw [← (Ram.samePage_setEntry_of_ne within notRoot _).entry_eq inside, Ram.entry_clear inside]

theorem ensures_installTable (stands : tree.Stands memory) (owner : Owner) (region : Nat) :
    ((tree.space owner).installTable region).Ensures memory
      (fun _ after => ∃ grown, tree.Prepares grown owner memory after ∧
        ∃ table, grown.table (region % entryCount) = some table)
      fun cause after => (∃ reason, cause = .alloc reason) ∧
        tree.table (region % entryCount) = none ∧ after = memory := by
  have within : region % entryCount < entryCount := Nat.mod_lt _ (by decide)
  rw [AddressSpace.installTable, ensures_bind, ensures_peek]
  refine ⟨_, stands.bears.table?_eq within, ?_⟩
  cases found : tree.table (region % entryCount) with
  | some table =>
      simp only [Option.map_some, Option.isNone_some, Bool.false_eq_true, if_false, ensures_pure]
      exact ⟨tree, .refl stands owner, table, found⟩
  | none =>
      simp only [Option.map_none, Option.isNone_none, if_true, ensures_bind, ensures_mapCause]
      refine (Memory.ensures_allocZeroed_unowned memory _).mono ?_
        fun reason _ same => ⟨⟨reason, rfl⟩, trivial, same⟩
      rintro _ _ ⟨page, rfl, unowned, rfl⟩
      rw [Memory.claimed, Memory.ensures_onRam, space, dir,
        ensures_of_eq_ok (Directory.setDirEntry_eq_ok within _)]
      exact ⟨_, prepares_install stands within found unowned owner, page, table_install_self⟩

/-- The page tables of a number of regions are installed one after another. -/
theorem ensures_installTables (stands : tree.Stands memory) (owner : Owner) (first count : Nat) :
    (forRange first count (tree.space owner).installTable).Ensures memory
      (fun _ after => ∃ grown, tree.Prepares grown owner memory after ∧
        ∀ region, first ≤ region → region < first + count →
          ∃ table, grown.table (region % entryCount) = some table)
      fun cause after => (∃ reason, cause = .alloc reason) ∧
        (∃ region, first ≤ region ∧ region < first + count ∧
          tree.table (region % entryCount) = none) ∧
        ∃ grown, tree.Prepares grown owner memory after := by
  refine ensures_forRange (fun next after => ∃ grown, tree.Prepares grown owner memory after ∧
    ∀ region, first ≤ region → region < next →
      ∃ table, grown.table (region % entryCount) = some table) ?_ ?_
  · exact ⟨tree, .refl stands owner, fun region above below => by omega⟩
  · rintro region state above below ⟨grown, prepares, installed⟩
    rw [← prepares.larger.space_eq owner]
    refine (ensures_installTable (prepares.stands stands) owner region).mono ?_ ?_
    · rintro _ after ⟨final, more, table, found⟩
      refine ⟨final, prepares.trans more, fun other onwards upto => ?_⟩
      obtain earlier | rfl := Nat.lt_succ_iff_lt_or_eq.mp upto
      · obtain ⟨old, wasFound⟩ := installed other onwards earlier
        exact ⟨old, more.larger.table_eq _ _ wasFound⟩
      · exact ⟨table, found⟩
    · rintro _ _ ⟨denied, missing, rfl⟩
      exact ⟨denied, ⟨region, above, below, prepares.larger.table_eq_none missing⟩, grown, prepares⟩

/-- The regions that page tables are installed for cover the whole range. -/
theorem covers_of_installed {stop : Nat} (ends : va.raw + len = stop)
    (installed : ∀ region, va.raw / regionSize ≤ region →
      region < va.raw / regionSize + AddressSpace.regionSpan va.raw stop →
        ∃ table, tree.table (region % entryCount) = some table) : tree.Covers va len := by
  intro i inside
  refine installed ((va.advance i).raw / regionSize) ?_ ?_
  · simp only [VirtAddr.advance, pageSize, regionSize]
    omega
  · simp only [VirtAddr.advance, AddressSpace.regionSpan, pageSize, regionSize] at *
    rw [if_pos (by omega)]
    omega

/-- If the page table of one of the regions is missing, the range is not covered. -/
theorem not_covers_of_missing {stop region : Nat} (multiple : va.raw % pageSize = 0)
    (lenMultiple : len % pageSize = 0) (ends : va.raw + len = stop)
    (above : va.raw / regionSize ≤ region)
    (below : region < va.raw / regionSize + AddressSpace.regionSpan va.raw stop)
    (missing : tree.table (region % entryCount) = none) : ¬tree.Covers va len := by
  intro covers
  unfold AddressSpace.regionSpan at below
  split at below
  · obtain ⟨i, inside, there⟩ : ∃ i < len / pageSize,
        (va.raw + i * pageSize) / regionSize = region := by
      refine ⟨(region * regionSize - va.raw) / pageSize, ?_, ?_⟩ <;>
        simp only [pageSize, regionSize] at * <;> omega
    obtain ⟨table, found⟩ := covers i inside
    have sameSlot : dirIndex (va.advance i) = region % entryCount :=
      congrArg (· % entryCount) there
    rw [sameSlot, missing] at found
    cases found
  · omega

/-! ## Mapping a range -/

/-- Why mapping a range is refused, and what it leaves behind then. -/
inductive MapRefusal (tree : PageTree) (owner : Owner) (va : VirtAddr) (pa : PhysAddr) (len : Nat)
    (before : Memory) : AddressSpaceError → Memory → Prop
  | unaligned (broken : ¬(va.isAligned = true ∧ isPageMultiple len = true)) :
      MapRefusal tree owner va pa len before (.mapping .unaligned) before
  | beyond (overflow : wordLimit ≤ va.raw + len) :
      MapRefusal tree owner va pa len before (.mapping .outOfRange) before
  /-- The first page that is occupied is the one to be blamed. -/
  | occupied {i : Nat} (inside : i < len / pageSize) (conflict : tree.Conflicts before.ram va pa i)
      (first : ∀ j < i, ¬tree.Conflicts before.ram va pa j) :
      MapRefusal tree owner va pa len before (.mapping (.occupied (va.advance i))) before
  /-- Page tables may have been installed before the ledger or the directory refused. -/
  | late {cause : AddressSpaceError} {after : Memory} {grown : PageTree}
      (vacant : ∀ i < len / pageSize, ¬tree.Conflicts before.ram va pa i)
      (unfit : Directory.InBounds va pa len → (∃ reason, cause = .alloc reason) ∧
        ¬tree.Covers va len)
      (prepares : tree.Prepares grown owner before after) :
      MapRefusal tree owner va pa len before cause after

/-- A refusal leaves nothing but empty page tables behind. -/
theorem MapRefusal.exists_prepares {cause : AddressSpaceError}
    (refusal : MapRefusal tree owner va pa len before cause after) (stands : tree.Stands before) :
    ∃ grown, tree.Prepares grown owner before after := by
  cases refusal with
  | unaligned _ => exact ⟨tree, .refl stands owner⟩
  | beyond _ => exact ⟨tree, .refl stands owner⟩
  | occupied _ _ _ => exact ⟨tree, .refl stands owner⟩
  | late _ _ prepares => exact ⟨_, prepares⟩

/-- What mapping a range comes to when it succeeds. -/
structure Mapped (tree grown : PageTree) (owner : Owner) (va : VirtAddr) (pa : PhysAddr)
    (len : Nat) (flags : PageFlags) (before after : Memory) : Prop
    extends tree.Grows grown owner (grown.parts \ tree.parts) before after where
  bounds : Directory.InBounds va pa len
  vacant : ∀ i < len / pageSize, ¬tree.Conflicts before.ram va pa i
  translate_eq : ∀ place : VirtAddr, place.raw < addressLimit →
    grown.translate after.ram place =
      remapped va pa len flags (tree.translate before.ram place) place
  cleared : ∀ slot page, grown.table slot = some page → tree.table slot = none →
    ∀ index < entryCount, ¬InRange va len slot index → after.ram.entry page index = 0

/-- Entries are written after the page tables were installed. -/
theorem Prepares.mapped {flags : PageFlags} {next : Ram}
    (prepares : tree.Prepares grown owner before middle)
    (vacant : ∀ i < len / pageSize, ¬tree.Conflicts before.ram va pa i)
    (bounds : Directory.InBounds va pa len)
    (remaps : grown.Remaps middle.ram next va pa len flags) :
    tree.Mapped grown owner va pa len flags before ⟨middle.ledger, next⟩ where
  larger := prepares.larger
  bears := remaps.bears
  grants := prepares.grants
  parts_held := prepares.parts_held
  untouched page apart taken :=
    (prepares.untouched page apart taken).trans (remaps.untouched page apart)
  bounds := bounds
  vacant := vacant
  translate_eq place low := by rw [remaps.translate_eq place low, prepares.translate_eq place]
  cleared slot page found absent index within outside :=
    (remaps.entries slot page found index within outside).trans
      (prepares.cleared slot page found absent index within)

/-- Mapping a range succeeds as a whole, or leaves all translations as they were. -/
theorem ensures_map (stands : tree.Stands memory) (owner : Owner) (va : VirtAddr) (pa : PhysAddr)
    (len : Nat) (flags : PageFlags) :
    ((tree.space owner).map va pa len flags).Ensures memory
      (fun _ after => ∃ grown, tree.Mapped grown owner va pa len flags memory after)
      (MapRefusal tree owner va pa len memory) := by
  unfold AddressSpace.map
  by_cases aligned : (va.isAligned && isPageMultiple len) = true
  · rw [aligned, Bool.not_true, if_neg (by decide)]
    cases sum : va.add? len with
    | none =>
        refine ensures_bind.mpr (ensures_require_none.mpr (.beyond ?_))
        exact wordAdd?_eq_none_iff.mp (Option.map_eq_none_iff.mp sum)
    | some stop =>
        have ends := (VirtAddr.add?_eq_some_iff.mp sum).1
        rw [ensures_bind, ensures_require_some, ensures_bind]
        refine (ensures_allVacant stands.bears owner va pa _).mono ?_ ?_
        · rintro _ _ ⟨rfl, vacant⟩
          rw [ensures_bind]
          refine (ensures_installTables stands owner _ _).mono ?_ ?_
          · rintro _ ⟨ledger, ram⟩ ⟨grown, prepares, installed⟩
            have covers := covers_of_installed ends installed
            have same := congrArg AddressSpace.dir (prepares.larger.space_eq owner)
            rw [← same, ensures_mapCause, Memory.ensures_onRam]
            refine (ensures_dirMap prepares.bears covers flags).mono ?_ ?_
            · rintro _ next ⟨bounds, remaps⟩
              exact ⟨grown, prepares.mapped vacant bounds remaps⟩
            · rintro cause _ ⟨unfit, rfl⟩
              exact .late vacant (fun bounds => absurd bounds unfit) prepares
          · rintro cause after ⟨denied, ⟨region, above, below, missing⟩, grown, prepares⟩
            have multiples := Bool.and_eq_true_iff.mp aligned
            have uncovered := not_covers_of_missing (VirtAddr.isAligned_iff.mp multiples.1)
              (isPageMultiple_iff.mp multiples.2) ends above below missing
            exact .late vacant (fun _ => ⟨denied, uncovered⟩) prepares
        · rintro _ _ ⟨rfl, i, inside, conflict, first, rfl⟩
          exact .occupied inside conflict first
  · rw [Bool.eq_false_iff.mpr aligned, Bool.not_false, if_pos rfl]
    refine ensures_bind.mpr (ensures_refuse.mpr (.unaligned fun both => aligned ?_))
    rw [both.1, both.2]
    rfl

/-! ## Mapping fresh pages -/

/-- What mapping a fresh page comes to when it succeeds. -/
structure MappedFresh (tree grown : PageTree) (owner : Owner) (va : VirtAddr) (page : Fin pageCount)
    (flags : PageFlags) (before after : Memory) : Prop
    extends tree.Grows grown owner (insert page (grown.parts \ tree.parts)) before after where
  page_apart : page ∉ grown.parts
  bounds : Directory.InBounds va (.ofPage page) pageSize
  vacant : ¬tree.Conflicts before.ram va (.ofPage page) 0
  translate_eq : ∀ place : VirtAddr, place.raw < addressLimit →
    grown.translate after.ram place =
      remapped va (.ofPage page) pageSize flags (tree.translate before.ram place) place

section Fresh

variable {flags : PageFlags} (stands : tree.Stands memory)
  (unowned : memory.ledger.entry page = .unowned)

include stands unowned

/-- Claiming and clearing a page that nobody had does nothing to a tree. -/
theorem Stands.same_claimed (owner : Owner) (other : Fin pageCount) (part : other ∈ tree.parts) :
    Ram.SamePage memory.ram (memory.claimed page owner).ram other :=
  Memory.samePage_claimed (by rintro rfl; exact stands.notMem_parts unowned part) owner

theorem Stands.claimed (owner : Owner) : tree.Stands (memory.claimed page owner) :=
  stands.congr fun other part =>
    ⟨(Memory.grants_claimed unowned owner).taken_of_taken (stands.taken other part),
      stands.same_claimed unowned owner other part⟩

theorem Stands.translate_claimed (owner : Owner) (va : VirtAddr) :
    tree.translate (memory.claimed page owner).ram va = tree.translate memory.ram va :=
  translate_congr (stands.same_claimed unowned owner) va

/-- New parts are not the page that was claimed before. -/
theorem Stands.notMem_grown
    (grows : tree.Grows grown owner (grown.parts \ tree.parts) (memory.claimed page owner) after) :
    page ∉ grown.parts := fun part =>
  grows.grants.untaken ⟨part, stands.notMem_parts unowned⟩
    ((Memory.grants_claimed unowned owner).taken rfl)

omit stands in
/-- Growth after a claim, seen from before the claim. -/
theorem grows_claimed
    (grows : tree.Grows grown owner (grown.parts \ tree.parts) (memory.claimed page owner) after) :
    tree.Grows grown owner (insert page (grown.parts \ tree.parts)) memory after where
  larger := grows.larger
  bears := grows.bears
  grants := (Memory.grants_claimed unowned owner).trans grows.grants
  parts_held other part := (grows.parts_held other part).imp_right .inr
  untouched other apart taken := by
    have notPage : other ≠ page := by
      rintro rfl
      rw [Ledger.Taken, unowned] at taken
      exact taken rfl
    exact (Memory.samePage_claimed notPage owner).trans (grows.untouched other apart
      ((Memory.grants_claimed unowned owner).taken_of_taken taken))

theorem Stands.mappedFresh
    (mapped : tree.Mapped grown owner va (.ofPage page) pageSize flags
      (memory.claimed page owner) after) :
    tree.MappedFresh grown owner va page flags memory after where
  toGrows := grows_claimed unowned mapped.toGrows
  page_apart := stands.notMem_grown unowned mapped.toGrows
  bounds := mapped.bounds
  vacant := by
    rintro ⟨existing, found, other⟩
    rw [← stands.translate_claimed unowned owner] at found
    exact mapped.vacant 0 (by decide) ⟨existing, found, other⟩
  translate_eq place low := by
    rw [mapped.translate_eq place low, stands.translate_claimed unowned owner]

/-- A page that could not be mapped is given back, and only empty page tables are left. -/
theorem Stands.ensures_dropClaimed
    (prepares : tree.Prepares grown owner (memory.claimed page owner) after) :
    (AddressSpace.dropPage (.ofPage page)).Ensures after
      (fun _ final => tree.Prepares grown owner memory final) fun _ _ => False := by
  have grows := grows_claimed unowned prepares.toGrows
  have apart := stands.notMem_grown unowned prepares.toGrows
  have member : page ∈ insert page (grown.parts \ tree.parts) := .inl rfl
  obtain ⟨ledger, ram⟩ := after
  rw [ensures_of_eq_ok (AddressSpace.dropPage_single (grows.grants.granted page member).2)]
  have given := grows.grants.setEntry_unowned member
  rw [Set.insert_sdiff_self_of_notMem fun new => apart new.1] at given
  exact ⟨⟨grows.larger, grows.bears, given, prepares.parts_held, grows.untouched⟩,
    fun va => (prepares.translate_eq va).trans (stands.translate_claimed unowned owner va),
    fun slot table found => (stands.same_claimed unowned owner table (table_mem_parts found)).trans
      (prepares.tables_same slot table found), prepares.cleared⟩

end Fresh

/-- A fresh page is mapped, or else nothing but empty page tables is left of the attempt. -/
theorem ensures_mapFresh (stands : tree.Stands memory) (owner : Owner) (va : VirtAddr)
    (flags : PageFlags) :
    ((tree.space owner).mapFresh va flags).Ensures memory
      (fun pa after => ∃ (page : Fin pageCount) (grown : PageTree), pa = .ofPage page ∧
        tree.MappedFresh grown owner va page flags memory after)
      fun _ after => ∃ grown, tree.Prepares grown owner memory after := by
  simp only [AddressSpace.mapFresh, ensures_bind, ensures_mapCause, ensures_onRefusal]
  refine (Memory.ensures_allocZeroed_unowned memory owner).mono ?_ ?_
  · rintro _ _ ⟨page, rfl, unowned, rfl⟩
    refine (ensures_map (stands.claimed unowned owner) owner va (.ofPage page) pageSize
      flags).mono ?_ ?_
    · rintro _ after ⟨grown, mapped⟩
      exact ensures_pure.mpr ⟨page, grown, rfl, stands.mappedFresh unowned mapped⟩
    · rintro cause after refusal
      obtain ⟨grown, prepares⟩ := refusal.exists_prepares (stands.claimed unowned owner)
      refine (stands.ensures_dropClaimed unowned prepares).mono ?_ fun _ _ => False.elim
      exact fun _ final left => ⟨grown, left⟩
  · rintro _ _ rfl
    exact ⟨tree, .refl stands owner⟩

end PageTree

end PagingKernel
