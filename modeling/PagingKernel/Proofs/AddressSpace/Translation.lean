import PagingKernel.Proofs.AddressSpace.View

/-!
# What a space does to addresses

An address below the process range is translated as by the kernel's own
directory, an address in the process range by the leaf at its place, and above
that nothing is mapped.
-/

namespace PagingKernel

open PageTable

/-- The page of the text console. -/
def consolePage : Fin pageCount :=
  ⟨consoleAddress / pageSize, by decide⟩

namespace PageTable

variable {words : Nat → UInt32} {va : VirtAddr}

/-- Only the addresses that one page table covers are mapped. -/
theorem translation_eq_of_lt (inside : va.raw < addressLimit) :
    translation words va =
      if va.raw / pageSize < entryCount then decodeEntry (words (va.raw / pageSize)) else none := by
  simp only [addressLimit] at inside
  by_cases covered : va.raw / pageSize < entryCount
  · rw [translation, if_pos (dirIndex_of_page rfl covered), if_pos covered,
      tableIndex_of_page rfl covered]
  · have later : dirIndex va ≠ 0 := by
      simp only [dirIndex, regionSize, pageSize, entryCount] at *
      omega
    rw [translation, if_neg later, if_neg covered]

/-- The kernel's own directory maps the pages of physical memory to themselves, but for page 0. -/
theorem translation_kernelWord_eq_some_iff (inside : va.raw < addressLimit) {mapping : Mapping} :
    translation kernelWord va = some mapping ↔
      ∃ page : Fin pageCount, va.raw / pageSize = page ∧ 0 < page.val ∧
        mapping = ⟨.ofPage page, Layout.kernelMappingFlags (.ofPage page)⟩ := by
  rw [translation_eq_of_lt inside]
  constructor
  · intro found
    split at found
    · rw [decodeEntry_kernelWord] at found
      split at found
      · rename_i bounds
        cases found
        exact ⟨⟨_, bounds.2⟩, rfl, bounds.1, rfl⟩
      · cases found
    · cases found
  · rintro ⟨page, number, positive, rfl⟩
    have covered : page.val < entryCount := Nat.lt_trans page.isLt (by decide)
    rw [number, if_pos covered, decodeEntry_kernelWord, if_pos ⟨positive, page.isLt⟩]

/-- Page 0 is unmapped, so that following a null pointer is caught. -/
theorem translation_kernelWord_page_zero (first : va.raw < pageSize) :
    translation kernelWord va = none := by
  have inside : va.raw < addressLimit := Nat.lt_trans first (by decide)
  rw [Option.eq_none_iff_forall_ne_some]
  intro mapping found
  obtain ⟨page, number, positive, -⟩ := (translation_kernelWord_eq_some_iff inside).mp found
  rw [Nat.div_eq_of_lt first] at number
  omega

/-- Of the pages that the kernel's directory maps only the console is open to user code. -/
theorem user_kernelMappingFlags_iff (page : Fin pageCount) :
    (Layout.kernelMappingFlags (.ofPage page)).user = true ↔ page = consolePage := by
  have sameAddress : (PhysAddr.ofPage page).raw = consoleAddress ↔ page = consolePage := by
    rw [Fin.ext_iff, PhysAddr.raw_ofPage, consolePage]
    simp only [pageSize, consoleAddress]
    omega
  rw [← sameAddress, Layout.kernelMappingFlags]
  split
  · rename_i isConsole
    exact iff_of_true rfl isConsole
  · rename_i notConsole
    exact iff_of_false (by decide) notConsole

end PageTable

/-- An address lies below the process range, in the page of one of its places, or above it. -/
theorem VirtAddr.place_cases (va : VirtAddr) :
    va.raw < processStart ∨ (∃ place, va.raw / pageSize = placeNumber place) ∨
      virtualSize ≤ va.raw := by
  rcases SpaceView.number_cases (va.raw / pageSize) with below | inside | above
  · refine .inl ?_
    simp only [firstProcessPage, pageSize, processStart] at *
    omega
  · exact .inr (.inl inside)
  · refine .inr (.inr ?_)
    simp only [firstProcessPage, processPageCount, pageSize, virtualSize] at *
    omega

/-- An aligned address of the process range is the base of one of its places. -/
theorem VirtAddr.exists_place {va : VirtAddr} (aligned : va.isAligned = true)
    (start : processStart ≤ va.raw) (stop : va.raw < virtualSize) :
    ∃ place, va = .ofPage (placeNumber place) := by
  rcases va.place_cases with below | ⟨place, number⟩ | above
  · omega
  · refine ⟨place, ?_⟩
    have exact_page := pageFloor_add_mod va.raw
    rw [pageFloor, number, isAligned_iff.mp aligned, Nat.add_zero] at exact_page
    exact congrArg VirtAddr.mk exact_page.symm
  · omega

theorem VirtAddr.bounds_of_place {va : VirtAddr} {place : Fin processPageCount}
    (number : va.raw / pageSize = placeNumber place) :
    processStart ≤ va.raw ∧ va.raw < virtualSize := by
  have bound := place.isLt
  simp only [placeNumber, firstProcessPage, processPageCount, pageSize, processStart,
    virtualSize] at *
  omega

theorem PageFlags.user_of_isUserWritable {flags : PageFlags}
    (writable : flags.isUserWritable = true) : flags.user = true := by
  simp only [isUserWritable, Bool.and_eq_true] at writable
  exact writable.2

theorem PageFlags.user_of_isUserReadOnly {flags : PageFlags}
    (readOnly : flags.isUserReadOnly = true) : flags.user = true := by
  simp only [isUserReadOnly, Bool.and_eq_true] at readOnly
  exact readOnly.1.2

namespace SpaceView

variable {view : SpaceView} {place : Fin processPageCount} {va : VirtAddr}

/-- Below the process range a space translates addresses as the kernel's own does. -/
theorem translation_word_of_lt (view : SpaceView) (below : va.raw < processStart) :
    translation view.word va = translation kernelWord va := by
  have inside : va.raw < addressLimit := Nat.lt_trans below (by decide)
  have number : va.raw / pageSize < firstProcessPage := by
    simp only [pageSize, firstProcessPage, processStart] at *
    omega
  rw [translation_eq_of_lt inside, translation_eq_of_lt inside, word_of_lt view number]

/-- Below the process range the words of a page table are those of the kernel's own. -/
theorem Stands.entry?_of_lt {ram : Ram} {kernelRoot kernelTable : Fin pageCount}
    (stands : view.Stands ram) (kernel : ram.Spans kernelRoot kernelTable kernelWord)
    (below : va.raw < processStart) :
    Directory.entry? ⟨.ofPage view.root⟩ ram va =
      Directory.entry? ⟨.ofPage kernelRoot⟩ ram va := by
  have first : dirIndex va = 0 := by
    simp only [dirIndex, regionSize, entryCount, processStart] at *
    omega
  have number : tableIndex va < firstProcessPage := by
    simp only [tableIndex, pageSize, entryCount, firstProcessPage, processStart] at *
    omega
  rw [Ram.Spans.entry?_eq_some stands first, kernel.entry?_eq_some first,
    wordOver_of_lt view kernelWord number]

theorem translation_word_of_place (view : SpaceView)
    (number : va.raw / pageSize = placeNumber place) :
    translation view.word va = (view.leaf place).map Leaf.mapping := by
  have inside : va.raw < addressLimit :=
    Nat.lt_trans (VirtAddr.bounds_of_place number).2 (by decide)
  rw [translation_eq_of_lt inside, number, if_pos (placeNumber_lt place),
    decodeEntry_word_placeNumber]

/-- A leaf translates the addresses of its page and no others. -/
theorem translation_word_setLeaf_of_ne (leaf : Leaf) (inside : va.raw < addressLimit)
    (apart : va.raw / pageSize ≠ placeNumber place) :
    translation (view.setLeaf place leaf).word va = translation view.word va := by
  have unchanged : (view.setLeaf place leaf).word (va.raw / pageSize) =
      view.word (va.raw / pageSize) :=
    (congrFun wordOver_setLeaf _).trans (Function.update_of_ne apart ..)
  rw [translation_eq_of_lt inside, translation_eq_of_lt inside, unchanged]

/-- Nothing is mapped above the process range. -/
theorem translation_word_of_ge (view : SpaceView) (above : virtualSize ≤ va.raw)
    (inside : va.raw < addressLimit) : translation view.word va = none := by
  have number : firstProcessPage + processPageCount ≤ va.raw / pageSize := by
    simp only [pageSize, firstProcessPage, processPageCount, virtualSize] at *
    omega
  rw [translation_eq_of_lt inside, word_of_ge view number]
  split
  · exact decodeEntry_zero
  · rfl

/-- What a space opens to user code is the console or one of its leaves. -/
theorem user_cases (inside : va.raw < addressLimit) {mapping : Mapping}
    (found : translation view.word va = some mapping) (user : mapping.flags.user = true) :
    (va.pageBase = ⟨consoleAddress⟩ ∧
      mapping = ⟨.ofPage consolePage, Layout.kernelMappingFlags (.ofPage consolePage)⟩) ∨
      processStart ≤ va.raw ∧ va.raw < virtualSize ∧
        ∃ place leaf, view.leaf place = some leaf ∧ mapping = leaf.mapping := by
  rcases va.place_cases with below | ⟨place, number⟩ | above
  · rw [translation_word_of_lt view below, translation_kernelWord_eq_some_iff inside] at found
    rcases found with ⟨page, number, -, rfl⟩
    obtain rfl := (user_kernelMappingFlags_iff page).mp user
    refine .inl ⟨?_, rfl⟩
    rw [VirtAddr.pageBase, pageFloor, number]
    rfl
  · rw [translation_word_of_place view number] at found
    obtain ⟨leaf, mapped, rfl⟩ := Option.map_eq_some_iff.mp found
    obtain ⟨start, stop⟩ := VirtAddr.bounds_of_place number
    exact .inr ⟨start, stop, place, leaf, mapped, rfl⟩
  · rw [translation_word_of_ge view above inside] at found
    cases found

end SpaceView

end PagingKernel
