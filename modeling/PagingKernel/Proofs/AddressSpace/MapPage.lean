import PagingKernel.AddressSpace.Basic
import PagingKernel.Proofs.Memory.Claims
import PagingKernel.Proofs.PageTable.Walk

/-!
# Mapping one page

Spaces grow a page at a time.  Where the region of the page has a page table,
mapping it writes one entry of that table and nothing else; where it has none,
a cleared page becomes the table first.
-/

namespace PagingKernel

open PageTable

namespace AddressSpace

open PagingKernel.Action

variable {ledger : Ledger} {ram : Ram} {root table page : Fin pageCount} {owner : Owner}
  {number : Nat}

theorem lookup_eq {space : AddressSpace} {va : VirtAddr} {found : Option Mapping}
    (seen : space.dir.lookup ram va = .ok found) : space.lookup ⟨ledger, ram⟩ va = .ok found :=
  seen

theorem regionSpan_page (number : Nat) :
    regionSpan (number * pageSize) (number * pageSize + pageSize) = 1 := by
  simp only [regionSpan, pageSize, regionSize]
  rw [if_pos (by omega)]
  omega

theorem add?_page (inside : number < virtualPageCount) :
    (VirtAddr.ofPage number).add? pageSize = some ⟨number * pageSize + pageSize⟩ := by
  have bound : number * pageSize + pageSize < wordLimit := by
    simp only [pageSize, wordLimit, virtualPageCount] at *
    omega
  exact VirtAddr.add?_eq_some_iff.mpr ⟨rfl, bound⟩

theorem region_mod_entryCount (number : Nat) :
    number * pageSize / regionSize % entryCount = dirIndex (.ofPage number) :=
  rfl

/-- A page is vacant for another if it maps nothing else. -/
theorem ensures_requireVacant {found : Option Mapping}
    (seen : (⟨.ofPage root⟩ : Directory).lookup ram (.ofPage number) = .ok found)
    (vacant : ∀ mapping ∈ found, mapping.pa = .ofPage page) :
    (requireVacant ⟨⟨.ofPage root⟩, owner⟩ (.ofPage number) (.ofPage page) 0).Ensures ⟨ledger, ram⟩
      (fun _ memory => memory = ⟨ledger, ram⟩) fun _ _ => False := by
  rw [requireVacant, VirtAddr.advance_zero, ensures_bind, ensures_peek]
  refine ⟨found, lookup_eq seen, ?_⟩
  cases found with
  | none => exact ensures_pure.mpr rfl
  | some mapping =>
      have same : (PhysAddr.ofPage page).add? (0 * pageSize) = some mapping.pa := by
        rw [vacant mapping rfl, PhysAddr.add?_eq_some_iff]
        exact ⟨by simp, Nat.lt_trans (PhysAddr.raw_ofPage_lt page) (by decide)⟩
      dsimp only
      rw [if_neg (not_not.mpr same)]
      exact ensures_pure.mpr rfl

/-- Where there is a page table, mapping a page writes its entry and nothing else. -/
theorem map_page_eq_ok (ledger : Ledger) (owner : Owner) (inside : number < virtualPageCount)
    (refers : ram.RefersTo root (dirIndex (.ofPage number)) table)
    (vacant : ∀ mapping ∈ decodeEntry (ram.entry table (tableIndex (.ofPage number))),
      mapping.pa = .ofPage page) (flags : PageFlags) :
    (⟨⟨.ofPage root⟩, owner⟩ : AddressSpace).map (.ofPage number) (.ofPage page) pageSize flags
        ⟨ledger, ram⟩ =
      .ok () ⟨ledger, ram.setEntry table (tableIndex (.ofPage number))
        (encodeEntry (.ofPage page) flags)⟩ := by
  have installed : (⟨.ofPage root⟩ : Directory).table? ram (dirIndex (.ofPage number)) =
      .ok (some (.ofPage table)) := by
    rw [Directory.table?_eq (dirIndex_lt _), refers]
  apply eq_ok_of_ensures
  simp only [map, VirtAddr.isAligned_ofPage, isPageMultiple_iff.mpr (Nat.mod_self pageSize),
    Bool.and_self, Bool.not_true, Bool.false_eq_true, if_false, add?_page inside,
    Nat.div_self (show 0 < pageSize by decide), VirtAddr.raw_ofPage, regionSpan_page,
    forRange_one, ensures_bind, ensures_require_some]
  refine (ensures_requireVacant (Directory.lookup_eq refers) vacant).mono ?_ fun _ _ => id
  rintro _ _ rfl
  rw [installTable, ensures_bind, ensures_peek]
  refine ⟨_, installed, ?_⟩
  simp only [Option.isNone_some, Bool.false_eq_true, if_false, ensures_pure, ensures_mapCause,
    Memory.ensures_onRam]
  rw [ensures_of_eq_ok (Directory.map_page_eq_ok inside refers page flags)]
  exact ⟨trivial, rfl⟩

/-- In the region of the first page table, mapping a page writes the entry of its number. -/
theorem map_lowPage_eq_ok (ledger : Ledger) (owner : Owner) (inside : number < entryCount)
    (refers : ram.RefersTo root 0 table)
    (vacant : ∀ mapping ∈ decodeEntry (ram.entry table number), mapping.pa = .ofPage page)
    (flags : PageFlags) :
    (⟨⟨.ofPage root⟩, owner⟩ : AddressSpace).map (.ofPage number) (.ofPage page) pageSize flags
        ⟨ledger, ram⟩ =
      .ok () ⟨ledger, ram.setEntry table number (encodeEntry (.ofPage page) flags)⟩ := by
  have index := tableIndex_ofPage_of_lt inside
  have mapped := map_page_eq_ok ledger owner
    (show number < virtualPageCount from Nat.lt_trans inside (by decide))
    (dirIndex_ofPage_of_lt inside ▸ refers) (index.symm ▸ vacant) flags
  rw [index] at mapped
  exact mapped

/-- A fresh page is mapped where nothing is mapped yet, whenever a page is free. -/
theorem ensures_mapFresh_lowPage (tidy : ledger.Tidy) (owned : owner ≠ .free)
    (inside : number < entryCount) (refers : ram.RefersTo root 0 table)
    (rootTaken : ledger.Taken root) (tableTaken : ledger.Taken table)
    (vacant : decodeEntry (ram.entry table number) = none) (flags : PageFlags) :
    ((⟨⟨.ofPage root⟩, owner⟩ : AddressSpace).mapFresh (.ofPage number) flags).Ensures
        ⟨ledger, ram⟩
      (fun pa memory => ∃ page : Fin pageCount, pa = .ofPage page ∧ Memory.NextFree ledger page ∧
        memory = ⟨ledger.charge owner (Pi.single page 1),
          (ram.clear page).setEntry table number (encodeEntry (.ofPage page) flags)⟩)
      fun cause memory => ∃ reason, cause = .alloc reason ∧ Memory.Exhausted ledger reason ∧
        memory = ⟨ledger, ram⟩ := by
  simp only [mapFresh, ensures_bind, ensures_mapCause, ensures_onRefusal]
  apply (Memory.ensures_allocZeroed tidy owned).mono
  · rintro _ _ ⟨page, rfl, nextFree, rfl⟩
    have rootApart : root ≠ page := fun same => nextFree.untaken (same ▸ rootTaken)
    have tableApart : table ≠ page := fun same => nextFree.untaken (same ▸ tableTaken)
    have stillRefers : (ram.clear page).RefersTo root 0 table := by
      rw [Ram.RefersTo, ← (Ram.samePage_clear_of_ne rootApart).entry_eq (by decide)]
      exact refers
    have stillVacant : ∀ mapping ∈ decodeEntry ((ram.clear page).entry table number),
        mapping.pa = .ofPage page := by
      rw [← (Ram.samePage_clear_of_ne tableApart).entry_eq inside, vacant]
      intro mapping impossible
      cases impossible
    have mapped := map_lowPage_eq_ok (ledger.charge owner (Pi.single page 1)) owner inside
      stillRefers stillVacant flags
    refine (ensures_of_eq_ok mapped).mpr (ensures_pure.mpr ?_)
    exact ⟨page, rfl, nextFree, rfl⟩
  · rintro reason _ ⟨exhausted, rfl⟩
    exact ⟨reason, rfl, exhausted, rfl⟩

/-- Where there is no page table, a cleared page becomes one before the page is mapped. -/
theorem ensures_map_page_installing (tidy : ledger.Tidy) (owned : owner ≠ .free)
    (inside : number < virtualPageCount) (rootTaken : ledger.Taken root)
    (absent : decodeEntry (ram.entry root (dirIndex (.ofPage number))) = none)
    (page : Fin pageCount) (flags : PageFlags) :
    ((⟨⟨.ofPage root⟩, owner⟩ : AddressSpace).map (.ofPage number) (.ofPage page) pageSize
        flags).Ensures ⟨ledger, ram⟩
      (fun _ memory => ∃ table, Memory.NextFree ledger table ∧
        memory = ⟨ledger.charge owner (Pi.single table 1),
          ((ram.clear table).setEntry root (dirIndex (.ofPage number))
            (encodeEntry (.ofPage table) .userRW)).setEntry table (tableIndex (.ofPage number))
              (encodeEntry (.ofPage page) flags)⟩)
      fun cause memory => ∃ reason, cause = .alloc reason ∧ Memory.Exhausted ledger reason ∧
        memory = ⟨ledger, ram⟩ := by
  have missing : (⟨.ofPage root⟩ : Directory).table? ram (dirIndex (.ofPage number)) =
      .ok none := by
    rw [Directory.table?_eq (dirIndex_lt _), absent]
    rfl
  simp only [map, VirtAddr.isAligned_ofPage, isPageMultiple_iff.mpr (Nat.mod_self pageSize),
    Bool.and_self, Bool.not_true, Bool.false_eq_true, if_false, add?_page inside,
    Nat.div_self (show 0 < pageSize by decide), VirtAddr.raw_ofPage, regionSpan_page,
    forRange_one, ensures_bind, ensures_require_some]
  refine (ensures_requireVacant (Directory.lookup_eq_none absent) (by simp)).mono ?_
    fun _ _ impossible => impossible.elim
  rintro _ _ rfl
  rw [installTable, ensures_bind, ensures_peek]
  refine ⟨_, missing, ?_⟩
  simp only [Option.isNone_none, if_true, ensures_bind, ensures_mapCause]
  refine (Memory.ensures_allocZeroed tidy owned).mono ?_ ?_
  · rintro _ _ ⟨table, rfl, next, rfl⟩
    have apart : root ≠ table := by
      rintro rfl
      exact next.untaken rootTaken
    have refers : ((ram.clear table).setEntry root (dirIndex (.ofPage number))
        (encodeEntry (.ofPage table) .userRW)).RefersTo root (dirIndex (.ofPage number)) table := by
      rw [Ram.RefersTo, Ram.entry_setEntry_self (dirIndex_lt _),
        decodeEntry_encodeEntry_ofPage table rfl]
      rfl
    rw [Memory.ensures_onRam, region_mod_entryCount,
      ensures_of_eq_ok (Directory.setDirEntry_eq_ok (dirIndex_lt _) _), Memory.ensures_onRam,
      ensures_of_eq_ok (Directory.map_page_eq_ok inside refers page flags)]
    exact ⟨table, next, rfl⟩
  · rintro reason _ ⟨exhausted, rfl⟩
    exact ⟨reason, rfl, exhausted, rfl⟩

end AddressSpace

end PagingKernel
