import PagingKernel.Action
import PagingKernel.MemoryMap

/-!
# Physical memory

RAM is an array of `physicalSize` bytes.  Its one view is `Ram.byte`, and each
operation is described by what it does to that view.  Words are 32 bits wide
and little-endian.

An access that does not lie in RAM as a whole is a fault, also when it is empty.
-/

namespace PagingKernel

/-- The byte at a position of an array, 0 beyond its end. -/
def byteAt (bytes : ByteArray) (pos : Nat) : UInt8 :=
  if inside : pos < bytes.size then bytes[pos] else 0

/-- The contents of physical memory. -/
structure Ram where
  /-- The bytes from address 0 upward. -/
  bytes : ByteArray
  /-- There is a byte for every physical address. -/
  size_bytes : bytes.size = physicalSize

namespace Ram

/-- Memory in which every byte is zero. -/
def blank : Ram where
  bytes := ⟨Array.replicate physicalSize 0⟩
  size_bytes := by simp [ByteArray.size]

instance : Inhabited Ram :=
  ⟨blank⟩

/-- The byte at an address, 0 beyond the end of memory. -/
def byte (ram : Ram) (pos : Nat) : UInt8 :=
  byteAt ram.bytes pos

/-- The little-endian word at an address. -/
def word (ram : Ram) (pos : Nat) : UInt32 :=
  UInt32.ofNat ((ram.byte pos).toNat + 0x100 * (ram.byte (pos + 1)).toNat
    + 0x10000 * (ram.byte (pos + 2)).toNat + 0x1000000 * (ram.byte (pos + 3)).toNat)

/-- Memory with one byte replaced; nothing changes beyond its end. -/
def set (ram : Ram) (pos : Nat) (value : UInt8) : Ram where
  bytes := ram.bytes.set! pos value
  size_bytes := by rw [ByteArray.size_set!, ram.size_bytes]

/-- Memory with `count` bytes from `start` on replaced by those of `source` from `index` on. -/
@[specialize]
def storeFrom (ram : Ram) (start index count : Nat) (source : Nat → UInt8) : Ram :=
  match count with
  | 0 => ram
  | count + 1 =>
      storeFrom (ram.set (start + index) (source index)) start (index + 1) count source

/-- Memory with `count` bytes from `start` on replaced by the first bytes of `source`. -/
@[inline]
def store (ram : Ram) (start count : Nat) (source : Nat → UInt8) : Ram :=
  ram.storeFrom start 0 count source

/-- Byte number `index` of a word in little-endian order. -/
def wordByte (value : UInt32) (index : Nat) : UInt8 :=
  UInt8.ofNat (value.toNat >>> (8 * index))

/-! ## What the operations do to the bytes -/

@[simp]
theorem byte_blank (pos : Nat) : blank.byte pos = 0 := by
  unfold byte byteAt
  split
  · simp [blank, ByteArray.getElem_eq_getElem_data]
  · rfl

theorem byte_eq_zero {ram : Ram} {pos : Nat} (outside : physicalSize ≤ pos) :
    ram.byte pos = 0 := by
  unfold byte byteAt
  rw [dif_neg]
  rw [ram.size_bytes]
  omega

/-- Memory is determined by its bytes. -/
theorem ext_byte {first second : Ram} (same : ∀ pos, first.byte pos = second.byte pos) :
    first = second := by
  obtain ⟨firstBytes, firstSize⟩ := first
  obtain ⟨secondBytes, secondSize⟩ := second
  simp only [mk.injEq]
  refine ByteArray.ext_getElem (by rw [firstSize, secondSize]) ?_
  intro pos inFirst inSecond
  simpa [byte, byteAt, inFirst, inSecond] using same pos

theorem byte_set {ram : Ram} {pos : Nat} {value : UInt8} (inside : pos < physicalSize)
    (other : Nat) :
    (ram.set pos value).byte other = if other = pos then value else ram.byte other := by
  by_cases within : other < physicalSize
  · have posSize : pos < ram.bytes.size := by rw [ram.size_bytes]; exact inside
    have otherSize : other < ram.bytes.size := by rw [ram.size_bytes]; exact within
    unfold byte byteAt set
    simp only [ByteArray.size_set!, otherSize, dite_true]
    rw [ByteArray.getElem_set! _ _ _ _ posSize otherSize]
    by_cases same : other = pos
    · simp [same]
    · rw [if_neg same, if_neg (Ne.symm same)]
  · rw [byte_eq_zero (by omega), byte_eq_zero (by omega), if_neg (by omega)]

theorem byte_storeFrom {ram : Ram} {start index count : Nat} {source : Nat → UInt8}
    (inside : start + index + count ≤ physicalSize) (pos : Nat) :
    (ram.storeFrom start index count source).byte pos =
      if start + index ≤ pos ∧ pos < start + index + count then source (pos - start)
      else ram.byte pos := by
  induction count generalizing ram index with
  | zero =>
      rw [if_neg (by omega)]
      rfl
  | succ count ih =>
      unfold storeFrom
      rw [ih (by omega), byte_set (by omega)]
      by_cases here : pos = start + index
      · rw [if_neg (by omega), if_pos here, if_pos (by omega), here]
        congr 1
        omega
      · rw [if_neg here]
        by_cases later : start + (index + 1) ≤ pos ∧ pos < start + (index + 1) + count
        · rw [if_pos later, if_pos (by omega)]
        · rw [if_neg later, if_neg (by omega)]

/-- Storing changes exactly the bytes it covers. -/
theorem byte_store {ram : Ram} {start count : Nat} {source : Nat → UInt8}
    (inside : start + count ≤ physicalSize) (pos : Nat) :
    (ram.store start count source).byte pos =
      if start ≤ pos ∧ pos < start + count then source (pos - start) else ram.byte pos := by
  simpa [store] using @byte_storeFrom ram start 0 count source (by omega) pos

/-- A stored word is read back. -/
theorem word_store_wordByte {ram : Ram} {pos : Nat} {value : UInt32}
    (inside : pos + 4 ≤ physicalSize) :
    (ram.store pos 4 (wordByte value)).word pos = value := by
  have small := value.toNat_lt
  apply UInt32.toNat_inj.mp
  simp only [word, byte_store inside, wordByte, Nat.shiftRight_eq_div_pow, UInt32.toNat_ofNat']
  rw [if_pos (by omega), if_pos (by omega), if_pos (by omega), if_pos (by omega)]
  simp only [Nat.sub_self, Nat.add_sub_cancel_left, UInt8.toNat_ofNat']
  omega

/-- Storing leaves a word alone that it does not overlap. -/
theorem word_store_of_disjoint {ram : Ram} {start count pos : Nat} {source : Nat → UInt8}
    (inside : start + count ≤ physicalSize)
    (apart : pos + 4 ≤ start ∨ start + count ≤ pos) :
    (ram.store start count source).word pos = ram.word pos := by
  simp only [word, byte_store inside]
  rw [if_neg (by omega), if_neg (by omega), if_neg (by omega), if_neg (by omega)]

/-! ## Checked access -/

/-- `len` bytes at `pa` lie in memory. -/
def Covers (pa : PhysAddr) (len : Nat) : Prop :=
  pa.raw + len ≤ physicalSize

instance (pa : PhysAddr) (len : Nat) : Decidable (Covers pa len) :=
  inferInstanceAs (Decidable (_ ≤ _))

/-- The `len` bytes at `pa`. -/
def read (ram : Ram) (pa : PhysAddr) (len : Nat) : Except Fault ByteArray :=
  if Covers pa len then .ok (ram.bytes.extract pa.raw (pa.raw + len))
  else .error (.outsideRam pa len)

/-- The byte at `pa`. -/
def readByte (ram : Ram) (pa : PhysAddr) : Except Fault UInt8 :=
  if Covers pa 1 then .ok (ram.byte pa.raw) else .error (.outsideRam pa 1)

/-- The word at `pa`. -/
def readWord (ram : Ram) (pa : PhysAddr) : Except Fault UInt32 :=
  if Covers pa 4 then .ok (ram.word pa.raw) else .error (.outsideRam pa 4)

variable {ε : Type}

/-- Replaces the `len` bytes at `pa` by the first bytes of `source`. -/
@[inline]
def replace (pa : PhysAddr) (len : Nat) (source : Nat → UInt8) : Action Ram ε Unit := fun ram =>
  if Covers pa len then .ok () (ram.store pa.raw len source)
  else .error (.faulted (.outsideRam pa len)) ram

/-- Writes bytes to memory from `pa` on. -/
def write (pa : PhysAddr) (data : ByteArray) : Action Ram ε Unit :=
  replace pa data.size (byteAt data)

/-- Sets the `len` bytes at `pa` to one value. -/
def fill (pa : PhysAddr) (len : Nat) (value : UInt8) : Action Ram ε Unit :=
  replace pa len fun _ => value

/-- Writes a word at `pa`. -/
def writeWord (pa : PhysAddr) (value : UInt32) : Action Ram ε Unit :=
  replace pa 4 (wordByte value)

/-- Copies the page at `source` to the page at `target`. -/
def copyPage (source target : PhysAddr) : Action Ram ε Unit := do
  if !(source.isAligned && target.isAligned) then
    Action.stop .unalignedCopy
  let page ← Action.peek (·.read source pageSize)
  write target page

end Ram

end PagingKernel
