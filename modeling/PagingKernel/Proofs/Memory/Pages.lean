import PagingKernel.Memory
import PagingKernel.PageTable.Directory

/-!
# Memory page by page

The pages of physical memory are named by numbers below `pageCount`.  Whatever
the kernel or user code writes is a store inside one page, so everything that
is known of the other pages survives it: `SamePage` is the frame condition of
all later statements.

A page may also be read as 1024 entries.  `setEntry` and `clear` are the two
ways in which the kernel writes such pages.
-/

namespace PagingKernel

open PageTable

theorem PhysAddr.ofPage_injective {first second : Nat}
    (same : PhysAddr.ofPage first = PhysAddr.ofPage second) : first = second := by
  have raw_eq := congrArg PhysAddr.raw same
  exact Nat.eq_of_mul_eq_mul_right (by decide) raw_eq

@[simp]
theorem PhysAddr.ofPage_inj {first second : Fin pageCount} :
    PhysAddr.ofPage first = PhysAddr.ofPage second ↔ first = second :=
  ⟨fun same => Fin.ext (ofPage_injective same), fun same => by rw [same]⟩

theorem PhysAddr.raw_ofPage_lt (page : Fin pageCount) : (ofPage page).raw < physicalSize := by
  rw [raw_ofPage, ← pageCount_mul_pageSize]
  exact Nat.mul_lt_mul_of_pos_right page.isLt (by decide)

/-- An aligned address in memory is the base of a page. -/
theorem PhysAddr.exists_ofPage {pa : PhysAddr} (aligned : pa.isAligned = true)
    (inside : pa.raw < physicalSize) : ∃ page : Fin pageCount, pa = .ofPage page := by
  have number : pa.raw / pageSize < pageCount := Nat.div_lt_of_lt_mul inside
  have base := pageFloor_add_mod pa.raw
  rw [isAligned_iff.mp aligned, Nat.add_zero] at base
  exact ⟨⟨pa.raw / pageSize, number⟩, congrArg PhysAddr.mk base.symm⟩

namespace Ram

/-- Byte `offset` of a page. -/
def pageByte (ram : Ram) (page : Fin pageCount) (offset : Nat) : UInt8 :=
  ram.byte (page * pageSize + offset)

/-- Two memories hold the same bytes in a page. -/
def SamePage (first second : Ram) (page : Fin pageCount) : Prop :=
  ∀ offset < pageSize, first.pageByte page offset = second.pageByte page offset

theorem SamePage.refl (ram : Ram) (page : Fin pageCount) : SamePage ram ram page :=
  fun _ _ => rfl

theorem SamePage.trans {first second third : Ram} {page : Fin pageCount}
    (early : SamePage first second page) (late : SamePage second third page) :
    SamePage first third page :=
  fun offset inside => (early offset inside).trans (late offset inside)

/-- Memory with `count` bytes of a page, from offset `start` on, replaced. -/
def overwrite (ram : Ram) (page : Fin pageCount) (start count : Nat) (source : Nat → UInt8) :
    Ram :=
  ram.store (page * pageSize + start) count source

/-- Memory with a page filled with zeros. -/
def clear (ram : Ram) (page : Fin pageCount) : Ram :=
  ram.overwrite page 0 pageSize fun _ => 0

/-- Entry `index` of a page of entries. -/
def entry (ram : Ram) (page : Fin pageCount) (index : Nat) : UInt32 :=
  ram.word (page * pageSize + index * entrySize)

/-- Memory with entry `index` of a page of entries replaced. -/
def setEntry (ram : Ram) (page : Fin pageCount) (index : Nat) (value : UInt32) : Ram :=
  ram.overwrite page (index * entrySize) entrySize (wordByte value)

/-- What lies inside a page lies in memory. -/
theorem covers_page (page : Fin pageCount) {start len : Nat} (inside : start + len ≤ pageSize) :
    Covers ⟨page * pageSize + start⟩ len := by
  have bound := page.isLt
  simp only [Covers, pageSize, pageCount, physicalSize] at *
  omega

theorem covers_ofPage (page : Fin pageCount) : Covers (.ofPage page) pageSize := by
  have covered : Covers ⟨page * pageSize + 0⟩ pageSize := covers_page page (by simp)
  rw [Nat.add_zero] at covered
  exact covered

/-! ## Stores inside a page -/

section Overwrite

variable {ram : Ram} {page : Fin pageCount} {start count : Nat} {source : Nat → UInt8}

theorem pageByte_overwrite (inside : start + count ≤ pageSize) (offset : Nat) :
    (ram.overwrite page start count source).pageByte page offset =
      if start ≤ offset ∧ offset < start + count then source (offset - start)
      else ram.pageByte page offset := by
  have covered : page * pageSize + start + count ≤ physicalSize := covers_page page inside
  rw [pageByte, overwrite, byte_store covered, pageByte]
  by_cases written : start ≤ offset ∧ offset < start + count
  · rw [if_pos written, if_pos (by omega)]
    congr 1
    omega
  · rw [if_neg written, if_neg (by omega)]

/-- A store inside one page leaves the other pages alone. -/
theorem samePage_overwrite_of_ne (inside : start + count ≤ pageSize) {other : Fin pageCount}
    (apart : other ≠ page) : SamePage ram (ram.overwrite page start count source) other := by
  intro offset offset_lt
  have covered : page * pageSize + start + count ≤ physicalSize := covers_page page inside
  have numbers : other.val ≠ page.val := fun same => apart (Fin.ext same)
  rw [pageByte, pageByte, overwrite, byte_store covered, if_neg]
  simp only [pageSize] at *
  omega

@[simp]
theorem pageByte_clear {offset : Nat} (inside : offset < pageSize) :
    (ram.clear page).pageByte page offset = 0 := by
  rw [clear, pageByte_overwrite (by simp), if_pos ⟨Nat.zero_le _, by omega⟩]

theorem samePage_clear_of_ne {other : Fin pageCount} (apart : other ≠ page) :
    SamePage ram (ram.clear page) other :=
  samePage_overwrite_of_ne (by simp) apart

end Overwrite

/-! ## Pages of entries -/

section Entries

variable {ram : Ram} {page : Fin pageCount} {index : Nat}

theorem entry_inside (inside : index < entryCount) :
    index * entrySize + entrySize ≤ pageSize := by
  simp only [entrySize, pageSize, entryCount] at *
  omega

theorem entry_offset_lt (inside : index < entryCount) {k : Nat} (k_lt : k < 4) :
    index * entrySize + k < pageSize := by
  simp only [entrySize, pageSize, entryCount] at *
  omega

theorem word_eq_of_byte_eq {first second : Ram} {pos other : Nat}
    (same : ∀ k < 4, first.byte (pos + k) = second.byte (other + k)) :
    first.word pos = second.word other := by
  have zero := same 0 (by decide)
  simp only [Nat.add_zero] at zero
  simp only [word, zero, same 1 (by decide), same 2 (by decide), same 3 (by decide)]

/-- Entries are made of the bytes of their page. -/
theorem SamePage.entry_eq {first second : Ram} (same : SamePage first second page)
    (inside : index < entryCount) : first.entry page index = second.entry page index := by
  apply word_eq_of_byte_eq
  intro k k_lt
  have read := same (index * entrySize + k) (entry_offset_lt inside k_lt)
  simpa only [pageByte, Nat.add_assoc] using read

theorem entry_clear (inside : index < entryCount) : (ram.clear page).entry page index = 0 := by
  have zero (k : Nat) (k_lt : k < 4) :
      (ram.clear page).byte (page * pageSize + index * entrySize + k) = blank.byte (0 + k) := by
    have read : (ram.clear page).pageByte page (index * entrySize + k) = 0 :=
      pageByte_clear (entry_offset_lt inside k_lt)
    rw [byte_blank]
    simpa only [pageByte, Nat.add_assoc] using read
  rw [entry, word_eq_of_byte_eq zero]
  simp [word]

@[simp]
theorem entry_setEntry_self (inside : index < entryCount) (value : UInt32) :
    (ram.setEntry page index value).entry page index = value := by
  have covered : page * pageSize + index * entrySize + entrySize ≤ physicalSize :=
    covers_page page (entry_inside inside)
  exact word_store_wordByte covered

theorem entry_setEntry_of_ne (inside : index < entryCount) {other : Nat} (apart : other ≠ index)
    (value : UInt32) : (ram.setEntry page index value).entry page other = ram.entry page other := by
  have covered : page * pageSize + index * entrySize + entrySize ≤ physicalSize :=
    covers_page page (entry_inside inside)
  refine word_store_of_disjoint covered ?_
  simp only [entrySize]
  omega

theorem samePage_setEntry_of_ne (inside : index < entryCount) {other : Fin pageCount}
    (apart : other ≠ page) (value : UInt32) : SamePage ram (ram.setEntry page index value) other :=
  samePage_overwrite_of_ne (entry_inside inside) apart

/-- Replacing an entry of a page leaves the bytes of the page's other entries alone. -/
theorem pageByte_setEntry_of_ne (inside : index < entryCount) {offset : Nat}
    (apart : offset / entrySize ≠ index) (value : UInt32) :
    (ram.setEntry page index value).pageByte page offset = ram.pageByte page offset := by
  rw [setEntry, pageByte_overwrite (entry_inside inside), if_neg]
  simp only [entrySize] at *
  omega

end Entries

/-! ## The checked operations inside a page -/

section Checked

variable {ε : Type} {ram : Ram} {page : Fin pageCount}

theorem entryAddress_ofPage (page : Fin pageCount) (index : Nat) :
    entryAddress (.ofPage page) index = ⟨page * pageSize + index * entrySize⟩ :=
  rfl

theorem readEntry_ofPage {index : Nat} (inside : index < entryCount) :
    readEntry ram (.ofPage page) index = .ok (ram.entry page index) := by
  rw [readEntry, entryAddress_ofPage, if_pos]
  · rfl
  · exact covers_page page (entry_inside inside)

theorem writeEntry_ofPage {index : Nat} (inside : index < entryCount) (value : UInt32) :
    (writeEntry (.ofPage page) index value : Action Ram ε Unit) ram =
      .ok () (ram.setEntry page index value) := by
  rw [writeEntry, entryAddress_ofPage, if_pos]
  · rfl
  · exact covers_page page (entry_inside inside)

theorem replace_inside {start len : Nat} (inside : start + len ≤ pageSize) (source : Nat → UInt8) :
    (replace ⟨page * pageSize + start⟩ len source : Action Ram ε Unit) ram =
      .ok () (ram.overwrite page start len source) := by
  rw [replace, if_pos (covers_page page inside)]
  rfl

theorem fill_ofPage : (fill (.ofPage page) pageSize 0 : Action Ram ε Unit) ram =
    .ok () (ram.clear page) := by
  have filled : (replace ⟨page * pageSize + 0⟩ pageSize (fun _ => 0) : Action Ram ε Unit) ram =
      .ok () (ram.overwrite page 0 pageSize fun _ => 0) := replace_inside (by simp) _
  rw [Nat.add_zero] at filled
  exact filled

theorem readByte_inside {offset : Nat} (inside : offset < pageSize) :
    ram.readByte ⟨page * pageSize + offset⟩ = .ok (ram.pageByte page offset) := by
  rw [readByte, if_pos (covers_page page (by omega))]
  rfl

/-- Memory with what one page holds copied to another. -/
def copied (ram : Ram) (source target : Fin pageCount) : Ram :=
  ram.overwrite target 0 pageSize fun offset => ram.pageByte source offset

@[simp]
theorem pageByte_copied {source target : Fin pageCount} {offset : Nat}
    (inside : offset < pageSize) :
    (ram.copied source target).pageByte target offset = ram.pageByte source offset := by
  rw [copied, pageByte_overwrite (by simp), if_pos ⟨Nat.zero_le _, by omega⟩, Nat.sub_zero]

theorem samePage_copied_of_ne {source target other : Fin pageCount} (apart : other ≠ target) :
    SamePage ram (ram.copied source target) other :=
  samePage_overwrite_of_ne (by simp) apart

theorem byteAt_extract {bytes : ByteArray} {start stop offset : Nat}
    (inside : start + offset < stop) (within : stop ≤ bytes.size) :
    byteAt (bytes.extract start stop) offset = byteAt bytes (start + offset) := by
  have extracted : offset < (bytes.extract start stop).size := by
    rw [ByteArray.size_extract]
    omega
  rw [byteAt, dif_pos extracted, byteAt, dif_pos (by omega), ByteArray.getElem_extract]

/-- Only the bytes that are stored matter. -/
theorem store_congr {start count : Nat} {first second : Nat → UInt8}
    (covered : start + count ≤ physicalSize) (same : ∀ k < count, first k = second k) :
    ram.store start count first = ram.store start count second := by
  apply ext_byte
  intro pos
  rw [byte_store covered, byte_store covered]
  by_cases written : start ≤ pos ∧ pos < start + count
  · rw [if_pos written, if_pos written, same _ (by omega)]
  · rw [if_neg written, if_neg written]

theorem copyPage_ofPage {source target : Fin pageCount} :
    (copyPage (.ofPage source) (.ofPage target) : Action Ram ε Unit) ram =
      .ok () (ram.copied source target) := by
  have sourceCovered := covers_ofPage source
  have targetCovered := covers_ofPage target
  have within : source * pageSize + pageSize ≤ ram.bytes.size := by
    rw [ram.size_bytes]
    exact sourceCovered
  have size_eq :
      (ram.bytes.extract (source * pageSize) (source * pageSize + pageSize)).size = pageSize := by
    rw [ByteArray.size_extract]
    omega
  have stored_eq : ram.store (target * pageSize) pageSize
      (byteAt (ram.bytes.extract (source * pageSize) (source * pageSize + pageSize))) =
        ram.copied source target := by
    rw [copied, overwrite, Nat.add_zero]
    refine store_congr targetCovered fun offset inside => ?_
    rw [byteAt_extract (by omega) within, pageByte, byte]
  simp only [copyPage, PhysAddr.isAligned_ofPage, Bool.and_self, Bool.not_true,
    Bool.false_eq_true, if_false]
  rw [Action.bind_eq_ok_iff]
  refine ⟨ram.bytes.extract (source * pageSize) (source * pageSize + pageSize), ram, ?_, ?_⟩
  · simp only [Action.peek, read, if_pos sourceCovered, PhysAddr.raw_ofPage]
  · simp only [write, replace, size_eq, if_pos targetCovered, PhysAddr.raw_ofPage, stored_eq]

end Checked

end Ram

end PagingKernel
