import Mathlib.Data.List.Nodup
import Mathlib.Data.Set.Insert
import Mathlib.Logic.Function.Basic
import PagingKernel.Proofs.PageTable.Walk

/-!
# Directories with any number of page tables

A `PageTree` is a directory as it is meant to be: a root and, in some of its slots,
page tables, which all lie on different pages.  `Ram.Bears ram tree` says that
memory holds such a directory.  What the page tables hold is left to memory, and
`PageTree.translate` reads it off.

Three things happen to a tree.  Writes outside its parts do nothing to it, writing
an entry of a page table changes what one page is mapped to, and a cleared page
becomes a page table in a slot that had none, which changes no translation.
-/

namespace PagingKernel

open PageTable

/-- A root and the page tables of some of its slots, all on different pages. -/
structure PageTree where
  /-- The page that holds the directory. -/
  root : Fin pageCount
  /-- The page table of a slot, if it has one. -/
  table : Nat → Option (Fin pageCount)
  inside : ∀ slot page, table slot = some page → slot < entryCount
  root_apart : ∀ slot page, table slot = some page → page ≠ root
  table_injective : ∀ first second page, table first = some page → table second = some page →
    first = second

namespace PageTree

variable {tree grown : PageTree} {ram next : Ram} {slot index : Nat} {page : Fin pageCount}
  {va : VirtAddr}

/-- The pages that a tree is made of. -/
def parts (tree : PageTree) : Set (Fin pageCount) :=
  {page | page = tree.root ∨ ∃ slot, tree.table slot = some page}

theorem root_mem_parts (tree : PageTree) : tree.root ∈ tree.parts :=
  .inl rfl

theorem table_mem_parts (found : tree.table slot = some page) : page ∈ tree.parts :=
  .inr ⟨slot, found⟩

/-- The page tables with their slots, in the order in which a walk finds them. -/
def listed (tree : PageTree) : List (Nat × PhysAddr) :=
  (List.range entryCount).filterMap fun slot =>
    (tree.table slot).map fun page : Fin pageCount => (slot, PhysAddr.ofPage page)

theorem mem_listed_iff {pa : PhysAddr} :
    (slot, pa) ∈ tree.listed ↔ ∃ page, tree.table slot = some page ∧ pa = .ofPage page := by
  rw [listed, List.mem_filterMap]
  constructor
  · rintro ⟨place, -, listed⟩
    obtain ⟨page, found, same⟩ := Option.map_eq_some_iff.mp listed
    cases same
    exact ⟨page, found, rfl⟩
  · rintro ⟨page, found, rfl⟩
    refine ⟨slot, List.mem_range.mpr (tree.inside slot page found), ?_⟩
    rw [found]
    rfl

theorem nodup_listed (tree : PageTree) : tree.listed.Nodup := by
  refine List.Nodup.filterMap (fun first second entry onFirst onSecond => ?_) List.nodup_range
  obtain ⟨_, -, rfl⟩ := Option.map_eq_some_iff.mp onFirst
  obtain ⟨_, -, same⟩ := Option.map_eq_some_iff.mp onSecond
  exact (congrArg Prod.fst same).symm

/-- The directory of a tree. -/
def dir (tree : PageTree) : Directory :=
  ⟨.ofPage tree.root⟩

/-- The entry that covers an address, if a page table does. -/
def entry? (tree : PageTree) (ram : Ram) (va : VirtAddr) : Option UInt32 :=
  (tree.table (dirIndex va)).map fun table => ram.entry table (tableIndex va)

/-- What the page of an address is mapped to, if it is mapped. -/
def translate (tree : PageTree) (ram : Ram) (va : VirtAddr) : Option Mapping :=
  (tree.entry? ram va).bind decodeEntry

theorem translate_of_table (found : tree.table (dirIndex va) = some page) :
    tree.translate ram va = decodeEntry (ram.entry page (tableIndex va)) := by
  rw [translate, entry?, found]
  rfl

theorem translate_of_no_table (absent : tree.table (dirIndex va) = none) :
    tree.translate ram va = none := by
  rw [translate, entry?, absent]
  rfl

/-! ## Growing a tree -/

/-- A tree with some more page tables. -/
structure Extends (tree grown : PageTree) : Prop where
  root_eq : grown.root = tree.root
  table_eq : ∀ slot page, tree.table slot = some page → grown.table slot = some page

theorem Extends.refl (tree : PageTree) : tree.Extends tree :=
  ⟨rfl, fun _ _ found => found⟩

theorem Extends.trans {final : PageTree} (early : tree.Extends grown)
    (late : grown.Extends final) : tree.Extends final where
  root_eq := late.root_eq.trans early.root_eq
  table_eq slot page found := late.table_eq slot page (early.table_eq slot page found)

theorem Extends.table_eq_none (larger : tree.Extends grown) (missing : grown.table slot = none) :
    tree.table slot = none := by
  cases found : tree.table slot with
  | none => rfl
  | some page =>
      rw [larger.table_eq slot page found] at missing
      cases missing

theorem Extends.parts_subset (larger : tree.Extends grown) : tree.parts ⊆ grown.parts := by
  rintro page (rfl | ⟨slot, found⟩)
  · exact .inl larger.root_eq.symm
  · exact .inr ⟨slot, larger.table_eq slot page found⟩

/-- A root without page tables. -/
def bare (root : Fin pageCount) : PageTree where
  root := root
  table _ := none
  inside _ _ impossible := by cases impossible
  root_apart _ _ impossible := by cases impossible
  table_injective _ _ _ impossible := by cases impossible

theorem parts_bare (root : Fin pageCount) : (bare root).parts = {root} := by
  ext page
  constructor
  · rintro (same | ⟨slot, impossible⟩)
    · exact same
    · cases impossible
  · exact fun same => .inl same

/-- A tree with one more page table. -/
def install (tree : PageTree) (slot : Nat) (page : Fin pageCount) (within : slot < entryCount)
    (apart : page ∉ tree.parts) : PageTree where
  root := tree.root
  table := Function.update tree.table slot (some page)
  inside place held found := by
    by_cases here : place = slot
    · exact here ▸ within
    · rw [Function.update_of_ne here] at found
      exact tree.inside place held found
  root_apart place held found := by
    by_cases here : place = slot
    · rw [here, Function.update_self] at found
      rintro rfl
      exact apart (.inl (Option.some.inj found))
    · rw [Function.update_of_ne here] at found
      exact tree.root_apart place held found
  table_injective first second held onFirst onSecond := by
    have elsewhere {place : Nat} (there : place ≠ slot)
        (found : Function.update tree.table slot (some page) place = some held) :
        tree.table place = some held ∧ held ≠ page := by
      rw [Function.update_of_ne there] at found
      exact ⟨found, fun same => apart (same ▸ table_mem_parts found)⟩
    by_cases firstHere : first = slot
    · by_cases secondHere : second = slot
      · rw [firstHere, secondHere]
      · rw [firstHere, Function.update_self] at onFirst
        exact absurd (Option.some.inj onFirst).symm (elsewhere secondHere onSecond).2
    · by_cases secondHere : second = slot
      · rw [secondHere, Function.update_self] at onSecond
        exact absurd (Option.some.inj onSecond).symm (elsewhere firstHere onFirst).2
      · exact tree.table_injective first second held (elsewhere firstHere onFirst).1
          (elsewhere secondHere onSecond).1

section Install

variable {within : slot < entryCount} {apart : page ∉ tree.parts}

theorem table_install_self : (tree.install slot page within apart).table slot = some page :=
  Function.update_self ..

theorem table_install_of_ne {other : Nat} (elsewhere : other ≠ slot) :
    (tree.install slot page within apart).table other = tree.table other :=
  Function.update_of_ne elsewhere ..

theorem extends_install (absent : tree.table slot = none) :
    tree.Extends (tree.install slot page within apart) where
  root_eq := rfl
  table_eq other held found := by
    rw [table_install_of_ne]
    · exact found
    · rintro rfl
      rw [absent] at found
      cases found

theorem parts_install (absent : tree.table slot = none) :
    (tree.install slot page within apart).parts = insert page tree.parts := by
  ext other
  constructor
  · rintro (same | ⟨place, found⟩)
    · exact .inr (.inl same)
    · by_cases here : place = slot
      · rw [here, table_install_self] at found
        exact .inl (Option.some.inj found).symm
      · rw [table_install_of_ne here] at found
        exact .inr (table_mem_parts found)
  · rintro (rfl | old)
    · exact table_mem_parts table_install_self
    · exact (extends_install absent).parts_subset old

end Install

end PageTree

/-- Memory holds the directory of a tree. -/
def Ram.Bears (ram : Ram) (tree : PageTree) : Prop :=
  ∀ slot < entryCount, (decodeEntry (ram.entry tree.root slot)).map (·.pa) =
    (tree.table slot).map fun page : Fin pageCount => PhysAddr.ofPage page

namespace Ram.Bears

open PageTree

variable {tree : PageTree} {ram next : Ram} {slot index : Nat} {page : Fin pageCount}
  {va : VirtAddr}

theorem refersTo (bears : ram.Bears tree) (found : tree.table slot = some page) :
    ram.RefersTo tree.root slot page := by
  rw [RefersTo, bears slot (tree.inside slot page found), found]
  rfl

theorem decodeEntry_eq_none (bears : ram.Bears tree) (within : slot < entryCount)
    (absent : tree.table slot = none) : decodeEntry (ram.entry tree.root slot) = none := by
  have nothing := bears slot within
  rw [absent] at nothing
  exact Option.map_eq_none_iff.mp nothing

/-! ## Reading -/

theorem table?_eq (bears : ram.Bears tree) (within : slot < entryCount) :
    tree.dir.table? ram slot =
      .ok ((tree.table slot).map fun page : Fin pageCount => PhysAddr.ofPage page) := by
  rw [dir, Directory.table?_eq within, bears slot within]

theorem entry?_eq (bears : ram.Bears tree) (va : VirtAddr) :
    tree.dir.entry? ram va = .ok (tree.entry? ram va) := by
  unfold PageTree.entry?
  cases found : tree.table (dirIndex va) with
  | none => exact Directory.entry?_eq_none (bears.decodeEntry_eq_none (dirIndex_lt va) found)
  | some page => exact Directory.entry?_eq_some (bears.refersTo found)

/-- A directory that memory holds translates every address. -/
theorem lookup_eq (bears : ram.Bears tree) (va : VirtAddr) :
    tree.dir.lookup ram va = .ok (tree.translate ram va) := by
  rw [Directory.lookup, bears.entry?_eq va]
  rfl

/-- A walk over the directory finds the page tables of the tree. -/
theorem tables_eq (bears : ram.Bears tree) :
    tree.dir.tables ram = .ok tree.listed := by
  rw [dir, Directory.tables_eq]
  refine congrArg _ (List.filterMap_congr fun slot listed => ?_)
  have same := congrArg (Option.map (Prod.mk slot)) (bears slot (List.mem_range.mp listed))
  rw [Option.map_map, Option.map_map] at same
  exact same

/-! ## Writing -/

/-- Writes outside the parts of a tree do nothing to it. -/
theorem congr (bears : ram.Bears tree) (kept : ∀ page ∈ tree.parts, SamePage ram next page) :
    next.Bears tree := by
  intro slot within
  rw [← (kept tree.root tree.root_mem_parts).entry_eq within]
  exact bears slot within

/-- Writing an entry of a page table leaves the directory alone. -/
theorem setEntry (bears : ram.Bears tree) (found : tree.table slot = some page)
    (within : index < entryCount) (word : UInt32) : (ram.setEntry page index word).Bears tree := by
  intro place inside
  have apart : tree.root ≠ page := (tree.root_apart slot page found).symm
  rw [← (samePage_setEntry_of_ne within apart word).entry_eq inside]
  exact bears place inside

theorem requireTable_eq_ok (bears : ram.Bears tree) (found : tree.table (dirIndex va) = some page) :
    tree.dir.requireTable va ram = .ok (.ofPage page) ram :=
  Directory.requireTable_eq_ok (bears.refersTo found)

theorem dirSetEntry_eq_ok (bears : ram.Bears tree) (found : tree.table (dirIndex va) = some page)
    (value : UInt32) :
    tree.dir.setEntry va value ram = .ok () (ram.setEntry page (tableIndex va) value) :=
  Directory.setEntry_eq_ok (bears.refersTo found) value

/-- A root that was cleared has no page tables. -/
theorem clear (ram : Ram) (root : Fin pageCount) : (ram.clear root).Bears (.bare root) := by
  intro slot within
  rw [bare, entry_clear within]
  rfl

/-- A cleared page becomes a page table. -/
theorem install (bears : ram.Bears tree) {within : slot < entryCount}
    {apart : page ∉ tree.parts} :
    ((ram.clear page).setEntry tree.root slot (encodeEntry (.ofPage page) .userRW)).Bears
      (tree.install slot page within apart) := by
  intro place inside
  change (decodeEntry (((ram.clear page).setEntry tree.root slot _).entry tree.root place)).map _ =
    _
  by_cases here : place = slot
  · rw [here, entry_setEntry_self within, table_install_self,
      decodeEntry_encodeEntry_ofPage page rfl]
    rfl
  · have rootApart : tree.root ≠ page := fun same => apart (.inl same.symm)
    rw [entry_setEntry_of_ne within here, table_install_of_ne here,
      ← (samePage_clear_of_ne rootApart).entry_eq inside]
    exact bears place inside

end Ram.Bears

namespace PageTree

open Ram

variable {tree : PageTree} {ram next : Ram} {slot index : Nat} {page : Fin pageCount}
  {va : VirtAddr}

theorem entry?_congr (kept : ∀ page ∈ tree.parts, SamePage ram next page) (va : VirtAddr) :
    tree.entry? next va = tree.entry? ram va := by
  unfold entry?
  cases found : tree.table (dirIndex va) with
  | none => rfl
  | some page =>
      rw [Option.map_some, Option.map_some,
        (kept page (table_mem_parts found)).entry_eq (tableIndex_lt va)]

theorem translate_congr (kept : ∀ page ∈ tree.parts, SamePage ram next page) (va : VirtAddr) :
    tree.translate next va = tree.translate ram va := by
  rw [translate, entry?_congr kept va]
  rfl

/-- Writing an entry of a page table changes what one page is mapped to. -/
theorem translate_setEntry (found : tree.table slot = some page) (within : index < entryCount)
    (word : UInt32) (va : VirtAddr) :
    tree.translate (ram.setEntry page index word) va =
      if dirIndex va = slot ∧ tableIndex va = index then decodeEntry word
      else tree.translate ram va := by
  split
  · rename_i same
    rw [translate_of_table (same.1.symm ▸ found), same.2, entry_setEntry_self within]
  · rename_i apart
    cases covered : tree.table (dirIndex va) with
    | none => rw [translate_of_no_table covered, translate_of_no_table covered]
    | some table =>
        rw [translate_of_table covered, translate_of_table covered]
        by_cases same : table = page
        · have sameSlot : dirIndex va = slot :=
            tree.table_injective _ _ page (same ▸ covered) found
          rw [same, entry_setEntry_of_ne within fun sameIndex => apart ⟨sameSlot, sameIndex⟩]
        · rw [← (samePage_setEntry_of_ne within same word).entry_eq (tableIndex_lt va)]

/-- A cleared page table changes no translation. -/
theorem translate_install {within : slot < entryCount} {apart : page ∉ tree.parts}
    (absent : tree.table slot = none) (value : UInt32) (va : VirtAddr) :
    (tree.install slot page within apart).translate
        ((ram.clear page).setEntry tree.root slot value) va = tree.translate ram va := by
  have rootApart : page ≠ tree.root := fun same => apart (.inl same)
  by_cases here : dirIndex va = slot
  · have installed : (tree.install slot page within apart).table (dirIndex va) = some page := by
      rw [here, table_install_self]
    have nothing : tree.table (dirIndex va) = none := by rw [here, absent]
    rw [translate_of_no_table nothing, translate_of_table installed,
      ← (samePage_setEntry_of_ne within rootApart value).entry_eq (tableIndex_lt va),
      entry_clear (tableIndex_lt va), decodeEntry_zero]
  · have same : (tree.install slot page within apart).table (dirIndex va) =
        tree.table (dirIndex va) := table_install_of_ne here
    cases found : tree.table (dirIndex va) with
    | none => rw [translate_of_no_table found, translate_of_no_table (same.trans found)]
    | some table =>
        have tableApart : table ≠ page := fun same => apart (same ▸ table_mem_parts found)
        have notRoot : table ≠ tree.root := tree.root_apart _ table found
        rw [translate_of_table found, translate_of_table (same.trans found),
          ← (samePage_setEntry_of_ne within notRoot value).entry_eq (tableIndex_lt va),
          ← (samePage_clear_of_ne tableApart).entry_eq (tableIndex_lt va)]

end PageTree

end PagingKernel
