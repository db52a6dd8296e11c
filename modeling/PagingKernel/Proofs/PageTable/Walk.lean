import PagingKernel.Proofs.Action.Ensures
import PagingKernel.Proofs.Memory.Pages

/-!
# Walking a directory

How a directory translates an address, in terms of the entries of the pages
that it is made of.  `Ram.RefersTo ram root slot table` says that a directory on
page `root` has page table `table` in `slot`; with it, reading and writing the
entry of an address is reading and writing one entry of `table`.
-/

namespace PagingKernel

open PageTable

namespace Action

variable {σ ε : Type}

/-- A range of one number. -/
theorem forRange_one (first : Nat) (act : Nat → Action σ ε Unit) :
    forRange first 1 act = act first := by
  rw [forRange_succ, forRange_zero]
  exact bind_pure_unit

end Action

/-! ## Addresses of pages -/

theorem dirIndex_lt (va : VirtAddr) : dirIndex va < entryCount :=
  Nat.mod_lt _ (by decide)

theorem tableIndex_lt (va : VirtAddr) : tableIndex va < entryCount :=
  Nat.mod_lt _ (by decide)

/-- Number of the pages that paging translates. -/
abbrev virtualPageCount : Nat := 0x100000

theorem VirtAddr.page_ofPage (number : Nat) : (ofPage number).raw / pageSize = number :=
  Nat.mul_div_cancel _ (by decide)

section

variable {va : VirtAddr} {number : Nat} (onPage : va.raw / pageSize = number)
  (inside : number < entryCount)

include onPage inside

/-- The first page table covers the pages below `entryCount`. -/
theorem dirIndex_of_page : dirIndex va = 0 := by
  simp only [dirIndex, regionSize, pageSize, entryCount] at *
  omega

theorem tableIndex_of_page : tableIndex va = number := by
  rw [tableIndex, onPage, Nat.mod_eq_of_lt inside]

end

theorem dirIndex_ofPage_of_lt {number : Nat} (inside : number < entryCount) :
    dirIndex (.ofPage number) = 0 :=
  dirIndex_of_page (VirtAddr.page_ofPage number) inside

theorem tableIndex_ofPage_of_lt {number : Nat} (inside : number < entryCount) :
    tableIndex (.ofPage number) = number :=
  tableIndex_of_page (VirtAddr.page_ofPage number) inside

@[simp]
theorem VirtAddr.advance_zero (va : VirtAddr) : va.advance 0 = va := by
  simp [advance]

@[simp]
theorem PhysAddr.advance_zero (pa : PhysAddr) : pa.advance 0 = pa := by
  simp [advance]

theorem PageTable.decodeEntry_encodeEntry_ofPage (page : Fin pageCount) {flags : PageFlags}
    (present : flags.present = true) :
    decodeEntry (encodeEntry (.ofPage page) flags) = some ⟨.ofPage page, flags⟩ := by
  apply decodeEntry_encodeEntry_of_present present (PhysAddr.isAligned_ofPage _)
  exact Nat.lt_trans (PhysAddr.raw_ofPage_lt page) (by decide)

/-! ## Reading -/

/-- A directory on page `root` has page table `table` in a slot. -/
def Ram.RefersTo (ram : Ram) (root : Fin pageCount) (slot : Nat) (table : Fin pageCount) : Prop :=
  (decodeEntry (ram.entry root slot)).map (·.pa) = some (.ofPage table)

namespace Directory

variable {ε : Type} {ram : Ram} {root table : Fin pageCount} {va : VirtAddr}

theorem table?_eq {slot : Nat} (inside : slot < entryCount) :
    (⟨.ofPage root⟩ : Directory).table? ram slot =
      .ok ((decodeEntry (ram.entry root slot)).map (·.pa)) := by
  rw [table?, dirEntry, Ram.readEntry_ofPage inside]
  rfl

/-- What a slot of the directory refers to, together with the slot. -/
def slotTable? (ram : Ram) (root : Fin pageCount) (slot : Nat) : Option (Nat × PhysAddr) :=
  (decodeEntry (ram.entry root slot)).map fun mapping => (slot, mapping.pa)

theorem tablesFrom_eq {index count : Nat} (inside : index + count ≤ entryCount) :
    (⟨.ofPage root⟩ : Directory).tablesFrom ram index count =
      .ok ((List.range' index count).filterMap (slotTable? ram root)) := by
  induction count generalizing index with
  | zero => rfl
  | succ count ih =>
      rw [tablesFrom, table?_eq (by omega), ih (by omega), List.range'_succ, List.filterMap_cons,
        slotTable?]
      cases decodeEntry (ram.entry root index) <;> rfl

/-- A walk over a directory finds what its present entries refer to, whatever they hold. -/
theorem tables_eq :
    (⟨.ofPage root⟩ : Directory).tables ram =
      .ok ((List.range entryCount).filterMap (slotTable? ram root)) := by
  rw [tables, tablesFrom_eq (by decide), List.range_eq_range']

theorem entry?_eq_some (refers : ram.RefersTo root (dirIndex va) table) :
    Directory.entry? ⟨.ofPage root⟩ ram va = .ok (some (ram.entry table (tableIndex va))) := by
  unfold entry?
  rw [table?_eq (dirIndex_lt va), refers]
  simp only [bind, Except.bind, Ram.readEntry_ofPage (tableIndex_lt va)]
  rfl

theorem entry?_eq_none (absent : decodeEntry (ram.entry root (dirIndex va)) = none) :
    Directory.entry? ⟨.ofPage root⟩ ram va = .ok none := by
  unfold entry?
  rw [table?_eq (dirIndex_lt va), absent]
  rfl

/-- An address is translated by its entry in the page table that covers it. -/
theorem lookup_eq (refers : ram.RefersTo root (dirIndex va) table) :
    (⟨.ofPage root⟩ : Directory).lookup ram va =
      .ok (decodeEntry (ram.entry table (tableIndex va))) := by
  rw [lookup, entry?_eq_some refers]
  rfl

theorem lookup_eq_none (absent : decodeEntry (ram.entry root (dirIndex va)) = none) :
    (⟨.ofPage root⟩ : Directory).lookup ram va = .ok none := by
  rw [lookup, entry?_eq_none absent]
  rfl

/-! ## Writing -/

theorem setDirEntry_eq_ok {slot : Nat} (inside : slot < entryCount) (value : UInt32) :
    ((⟨.ofPage root⟩ : Directory).setDirEntry slot value : Action Ram ε Unit) ram =
      .ok () (ram.setEntry root slot value) :=
  Ram.writeEntry_ofPage inside value

theorem requireTable_eq_ok (refers : ram.RefersTo root (dirIndex va) table) :
    (⟨.ofPage root⟩ : Directory).requireTable va ram = .ok (.ofPage table) ram := by
  have seen : (⟨.ofPage root⟩ : Directory).table? ram (dirIndex va) =
      .ok (some (.ofPage table)) := by
    rw [table?_eq (dirIndex_lt va), refers]
  apply Action.eq_ok_of_ensures
  rw [requireTable, Action.ensures_bind, Action.ensures_peek]
  exact ⟨_, seen, Action.ensures_require_some.mpr ⟨rfl, rfl⟩⟩

theorem setEntry_eq_ok (refers : ram.RefersTo root (dirIndex va) table) (value : UInt32) :
    (⟨.ofPage root⟩ : Directory).setEntry va value ram =
      .ok () (ram.setEntry table (tableIndex va) value) := by
  apply Action.eq_ok_of_ensures
  rw [setEntry, Action.ensures_bind, Action.ensures_of_eq_ok (requireTable_eq_ok refers),
    Action.ensures_of_eq_ok (Ram.writeEntry_ofPage (tableIndex_lt va) value)]
  exact ⟨rfl, rfl⟩

theorem checkRange_page {number : Nat} (inside : number < virtualPageCount)
    (page : Fin pageCount) :
    checkRange (.ofPage number) (.ofPage page) pageSize = .ok () := by
  have virtualBound : number * pageSize + pageSize ≤ addressLimit := by
    simp only [pageSize, addressLimit, virtualPageCount] at *
    omega
  have physicalBound : page * pageSize + pageSize ≤ addressLimit := by
    have covered : page * pageSize + pageSize ≤ physicalSize := Ram.covers_ofPage page
    exact Nat.le_trans covered (by decide)
  have fits : addressLimit < wordLimit := by decide
  have virtual : wordAdd? (number * pageSize) pageSize = some (number * pageSize + pageSize) :=
    wordAdd?_eq_some_iff.mpr ⟨rfl, by omega⟩
  have physical : wordAdd? (page * pageSize) pageSize = some (page * pageSize + pageSize) :=
    wordAdd?_eq_some_iff.mpr ⟨rfl, by omega⟩
  simp only [checkRange, VirtAddr.isAligned_ofPage, PhysAddr.isAligned_ofPage, VirtAddr.add?,
    PhysAddr.add?, VirtAddr.raw_ofPage, PhysAddr.raw_ofPage, virtual, physical, Option.map_some,
    Bool.or_eq_true, decide_eq_true_eq,
    Nat.not_lt.mpr virtualBound, Nat.not_lt.mpr physicalBound, or_self, if_false]
  rfl

/-- Mapping one page of a region that has a page table writes one entry. -/
theorem map_page_eq_ok {number : Nat} (inside : number < virtualPageCount)
    (refers : ram.RefersTo root (dirIndex (.ofPage number)) table) (page : Fin pageCount)
    (flags : PageFlags) :
    (⟨.ofPage root⟩ : Directory).map (.ofPage number) (.ofPage page) pageSize flags ram =
      .ok () (ram.setEntry table (tableIndex (.ofPage number))
        (encodeEntry (.ofPage page) flags)) := by
  apply Action.eq_ok_of_ensures
  simp only [map, checkRange_page inside, Nat.div_self (show 0 < pageSize by decide),
    Action.forRange_one, VirtAddr.advance_zero, PhysAddr.advance_zero, Action.ensures_bind,
    Action.ensures_ofExcept_ok, Action.ensures_pure]
  rw [Action.ensures_of_eq_ok (requireTable_eq_ok refers),
    Action.ensures_of_eq_ok (setEntry_eq_ok refers _)]
  exact ⟨trivial, rfl⟩

end Directory

end PagingKernel
