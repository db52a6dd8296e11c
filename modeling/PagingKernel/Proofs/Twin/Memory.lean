import PagingKernel.Proofs.Memory.Claims
import PagingKernel.Proofs.PageTable.Span

/-!
# Memories with different pasts

Two memories are alike if their ledgers are the same and they hold the same
bytes in every page that was taken since boot.  What the other pages hold was
there before, and nothing that the kernel does may depend on it.
-/

namespace PagingKernel

open PageTable

namespace Ram

variable {left right : Ram} {page other : Fin pageCount}

theorem SamePage.symm (same : SamePage left right page) : SamePage right left page :=
  fun offset inside => (same offset inside).symm

/-- The same store keeps a page the same. -/
theorem SamePage.overwrite (same : SamePage left right page) {start count : Nat}
    (inside : start + count ≤ pageSize) (source : Nat → UInt8) :
    SamePage (left.overwrite other start count source) (right.overwrite other start count source)
      page := by
  by_cases here : page = other
  · subst here
    intro offset offset_lt
    rw [pageByte_overwrite inside, pageByte_overwrite inside, same offset offset_lt]
  · exact ((samePage_overwrite_of_ne inside here).symm.trans same).trans
      (samePage_overwrite_of_ne inside here)

/-- What a page held before does not show once it is cleared. -/
theorem samePage_clear_clear (left right : Ram) (page : Fin pageCount) :
    SamePage (left.clear page) (right.clear page) page := by
  intro offset inside
  rw [pageByte_clear inside, pageByte_clear inside]

/-! ## Pages of entries -/

/-- A word is made of its four bytes. -/
theorem wordByte_word (ram : Ram) (pos : Nat) {index : Nat} (inside : index < 4) :
    wordByte (ram.word pos) index = ram.byte (pos + index) := by
  have zero := (ram.byte pos).toNat_lt
  have one := (ram.byte (pos + 1)).toNat_lt
  have two := (ram.byte (pos + 2)).toNat_lt
  have three := (ram.byte (pos + 3)).toNat_lt
  apply UInt8.toNat_inj.mp
  simp only [wordByte, word, UInt8.toNat_ofNat', UInt32.toNat_ofNat', Nat.shiftRight_eq_div_pow]
  obtain rfl | rfl | rfl | rfl : index = 0 ∨ index = 1 ∨ index = 2 ∨ index = 3 := by omega
  · simp only [Nat.mul_zero, Nat.pow_zero, Nat.div_one, Nat.add_zero]
    omega
  all_goals omega

/-- A page is determined by its entries. -/
theorem samePage_of_entries
    (same : ∀ index < entryCount, left.entry page index = right.entry page index) :
    SamePage left right page := by
  intro offset inside
  have index_lt : offset / entrySize < entryCount := by
    simp only [entrySize, entryCount, pageSize] at *
    omega
  have split : page * pageSize + offset =
      page * pageSize + offset / entrySize * entrySize + offset % entrySize := by
    have parts := Nat.div_add_mod offset entrySize
    simp only [entrySize] at *
    omega
  have byte_lt : offset % entrySize < 4 := Nat.mod_lt _ (by decide)
  have words := congrArg (wordByte · (offset % entrySize)) (same _ index_lt)
  dsimp only [entry] at words
  rw [wordByte_word left _ byte_lt, wordByte_word right _ byte_lt, ← split] at words
  exact words

/-- A directory with one page table is determined by the words of the page table. -/
theorem Spans.samePage_root {root table : Fin pageCount} {words : Nat → UInt32}
    (spans : left.Spans root table words) (alsoSpans : right.Spans root table words) :
    SamePage left right root := by
  refine samePage_of_entries fun index inside => ?_
  by_cases first : index = 0
  · rw [first, spans.first, alsoSpans.first]
  · have positive := Nat.pos_of_ne_zero first
    rw [spans.others index positive inside, alsoSpans.others index positive inside]

theorem Spans.samePage_table {root table : Fin pageCount} {words : Nat → UInt32}
    (spans : left.Spans root table words) (alsoSpans : right.Spans root table words) :
    SamePage left right table := by
  refine samePage_of_entries fun index inside => ?_
  rw [spans.entries index inside, alsoSpans.entries index inside]

end Ram

/-! ## Memories that are alike -/

namespace Memory

/-- The ledgers are the same, and so are the pages that were taken since boot. -/
structure Alike (boot : Ledger) (left right : Memory) : Prop where
  ledger_eq : left.ledger = right.ledger
  pages : ∀ page, left.ledger.Taken page → ¬boot.Taken page →
    Ram.SamePage left.ram right.ram page

end Memory

end PagingKernel
