import Mathlib.Logic.Function.Basic
import PagingKernel.Proofs.PageTable.Walk

/-!
# Directories with one page table

Every directory that the kernel builds has one page table, in its first slot,
which covers the addresses below `regionSize`.  `Ram.Spans ram root table words`
says that this is what memory holds, down to the words of the page table, and
`translation words` is what such a directory does to addresses.
-/

namespace PagingKernel

open PageTable

/-- What an address is mapped to by a directory whose only page table, in slot 0, holds `words`. -/
def PageTable.translation (words : Nat → UInt32) (va : VirtAddr) : Option Mapping :=
  if dirIndex va = 0 then decodeEntry (words (tableIndex va)) else none

theorem PageTable.translation_ofPage {words : Nat → UInt32} {number : Nat}
    (inside : number < entryCount) :
    translation words (.ofPage number) = decodeEntry (words number) := by
  rw [translation, if_pos (dirIndex_ofPage_of_lt inside), tableIndex_ofPage_of_lt inside]

/-- A directory on page `root` has one page table, on page `table`, which holds `words`. -/
structure Ram.Spans (ram : Ram) (root table : Fin pageCount) (words : Nat → UInt32) : Prop where
  first : ram.entry root 0 = encodeEntry (.ofPage table) .userRW
  others : ∀ slot, 0 < slot → slot < entryCount → ram.entry root slot = 0
  entries : ∀ index < entryCount, ram.entry table index = words index

namespace Ram.Spans

variable {ram other : Ram} {root table : Fin pageCount} {words : Nat → UInt32}

/-- A directory is determined by what its two pages hold. -/
theorem congr (spans : ram.Spans root table words) (sameRoot : SamePage ram other root)
    (sameTable : SamePage ram other table) : other.Spans root table words where
  first := by
    rw [← sameRoot.entry_eq (by decide)]
    exact spans.first
  others slot positive inside := by
    rw [← sameRoot.entry_eq inside]
    exact spans.others slot positive inside
  entries index inside := by
    rw [← sameTable.entry_eq inside]
    exact spans.entries index inside

theorem refersTo (spans : ram.Spans root table words) : ram.RefersTo root 0 table := by
  rw [RefersTo, spans.first, decodeEntry_encodeEntry_ofPage table rfl]
  rfl

theorem decodeEntry_slot (spans : ram.Spans root table words) {slot : Nat} (positive : 0 < slot)
    (inside : slot < entryCount) : decodeEntry (ram.entry root slot) = none := by
  rw [spans.others slot positive inside, decodeEntry_zero]

/-- Changing a word of the page table changes that word and nothing else. -/
theorem setEntry (spans : ram.Spans root table words) (apart : root ≠ table) {index : Nat}
    (inside : index < entryCount) (word : UInt32) :
    (ram.setEntry table index word).Spans root table (Function.update words index word) where
  first := by
    rw [← (samePage_setEntry_of_ne inside apart word).entry_eq (by decide)]
    exact spans.first
  others slot positive within := by
    rw [← (samePage_setEntry_of_ne inside apart word).entry_eq within]
    exact spans.others slot positive within
  entries place within := by
    by_cases same : place = index
    · rw [same, entry_setEntry_self inside, Function.update_self]
    · rw [entry_setEntry_of_ne inside same, Function.update_of_ne same]
      exact spans.entries place within

/-! ## Translating addresses -/

/-- The page table has a word for every address that it covers. -/
theorem entry?_eq_some (spans : ram.Spans root table words) {va : VirtAddr}
    (first : dirIndex va = 0) :
    Directory.entry? ⟨.ofPage root⟩ ram va = .ok (some (words (tableIndex va))) := by
  have refers : ram.RefersTo root (dirIndex va) table := by
    rw [first]
    exact spans.refersTo
  rw [Directory.entry?_eq_some refers, spans.entries _ (tableIndex_lt va)]

theorem entry?_ofPage (spans : ram.Spans root table words) {number : Nat}
    (inside : number < entryCount) :
    Directory.entry? ⟨.ofPage root⟩ ram (.ofPage number) = .ok (some (words number)) := by
  rw [spans.entry?_eq_some (dirIndex_ofPage_of_lt inside), tableIndex_ofPage_of_lt inside]

/-- Such a directory translates every address, and never leaves memory to do so. -/
theorem lookup_eq (spans : ram.Spans root table words) (va : VirtAddr) :
    (⟨.ofPage root⟩ : Directory).lookup ram va = .ok (translation words va) := by
  by_cases slot : dirIndex va = 0
  · have refers : ram.RefersTo root (dirIndex va) table := by
      rw [slot]
      exact spans.refersTo
    rw [Directory.lookup_eq refers, translation, if_pos slot,
      spans.entries (tableIndex va) (tableIndex_lt va)]
  · have absent : decodeEntry (ram.entry root (dirIndex va)) = none :=
      spans.decodeEntry_slot (Nat.pos_of_ne_zero slot) (dirIndex_lt va)
    rw [Directory.lookup_eq_none absent, translation, if_neg slot]

theorem lookup_ofPage (spans : ram.Spans root table words) {number : Nat}
    (inside : number < entryCount) :
    (⟨.ofPage root⟩ : Directory).lookup ram (.ofPage number) =
      .ok (decodeEntry (words number)) := by
  rw [spans.lookup_eq, translation_ofPage inside]

/-! ## Finding the page tables -/

private theorem tablesFrom_eq_nil (spans : ram.Spans root table words) {index count : Nat}
    (positive : 0 < index) (inside : index + count ≤ entryCount) :
    (⟨.ofPage root⟩ : Directory).tablesFrom ram index count = .ok [] := by
  induction count generalizing index with
  | zero => rfl
  | succ count ih =>
      have absent := spans.decodeEntry_slot positive (show index < entryCount by omega)
      rw [Directory.tablesFrom, Directory.table?_eq (by omega), absent,
        ih (Nat.succ_pos index) (by omega)]
      rfl

/-- A walk over the directory finds its page table and nothing else. -/
theorem tables_eq (spans : ram.Spans root table words) :
    (⟨.ofPage root⟩ : Directory).tables ram = .ok [(0, .ofPage table)] := by
  have found : (decodeEntry (ram.entry root 0)).map (·.pa) = some (.ofPage table) :=
    spans.refersTo
  rw [Directory.tables, show entryCount = 1023 + 1 from rfl, Directory.tablesFrom,
    Directory.table?_eq (by decide), found, tablesFrom_eq_nil spans Nat.one_pos (by decide)]
  rfl

end Ram.Spans

end PagingKernel
