import PagingKernel.Text.Hex
import PagingKernel.Text.Term

/-!
# Addresses and pages

Physical and virtual addresses are different types, so that a walk over page
tables is never handed a user address where a physical one is meant.  Both are
natural numbers; the machine word that holds them has 64 bits, and `add?`
refuses a sum that does not fit in it.

Memory is divided into pages of `pageSize` bytes.  An address splits into the
base of its page and an offset in it.
-/

namespace PagingKernel

/-- Bytes in a page. -/
abbrev pageSize : Nat := 4096

/-- Exclusive bound of the numbers that a machine word of 64 bits holds. -/
abbrev wordLimit : Nat := 0x10000000000000000

/-- Exclusive bound of the addresses that paging translates, which have 32 bits. -/
abbrev addressLimit : Nat := 0x100000000

/-- Whether a number is a multiple of the page size. -/
def isPageMultiple (n : Nat) : Bool :=
  n % pageSize = 0

theorem isPageMultiple_iff {n : Nat} : isPageMultiple n = true ↔ n % pageSize = 0 := by
  simp [isPageMultiple]

/-- The greatest multiple of the page size that is not above a number. -/
def pageFloor (n : Nat) : Nat :=
  n / pageSize * pageSize

theorem pageFloor_add_mod (n : Nat) : pageFloor n + n % pageSize = n := by
  simp only [pageFloor, pageSize]
  omega

theorem pageFloor_le (n : Nat) : pageFloor n ≤ n := by
  simp only [pageFloor, pageSize]
  omega

@[simp]
theorem isPageMultiple_pageFloor (n : Nat) : isPageMultiple (pageFloor n) = true := by
  simp [isPageMultiple, pageFloor]

/-- The sum of two numbers, if a machine word holds it. -/
def wordAdd? (a b : Nat) : Option Nat :=
  if a + b < wordLimit then some (a + b) else none

theorem wordAdd?_eq_some_iff {a b sum : Nat} :
    wordAdd? a b = some sum ↔ a + b = sum ∧ sum < wordLimit := by
  unfold wordAdd?
  split
  · constructor
    · rintro ⟨rfl⟩
      exact ⟨rfl, by assumption⟩
    · rintro ⟨rfl, _⟩
      rfl
  · constructor
    · intro impossible
      cases impossible
    · rintro ⟨rfl, _⟩
      contradiction

theorem wordAdd?_eq_none_iff {a b : Nat} : wordAdd? a b = none ↔ wordLimit ≤ a + b := by
  simp [wordAdd?]

/-- An address in physical memory. -/
structure PhysAddr where
  /-- The address as a number. -/
  raw : Nat
deriving DecidableEq, Repr

/-- An address in some address space. -/
structure VirtAddr where
  /-- The address as a number. -/
  raw : Nat
deriving DecidableEq, Repr

/-! ## Physical addresses -/

namespace PhysAddr

/-- The base of page number `n`. -/
def ofPage (n : Nat) : PhysAddr :=
  ⟨n * pageSize⟩

/-- Whether the address is the base of a page. -/
def isAligned (pa : PhysAddr) : Bool :=
  isPageMultiple pa.raw

/-- The base of the page that holds the address. -/
def pageBase (pa : PhysAddr) : PhysAddr :=
  ⟨pageFloor pa.raw⟩

/-- The offset of the address in its page. -/
def pageOffset (pa : PhysAddr) : Nat :=
  pa.raw % pageSize

/-- The address some pages further on. -/
def advance (pa : PhysAddr) (pages : Nat) : PhysAddr :=
  ⟨pa.raw + pages * pageSize⟩

/-- The address some bytes further on, if it fits in a machine word. -/
def add? (pa : PhysAddr) (bytes : Nat) : Option PhysAddr :=
  (wordAdd? pa.raw bytes).map PhysAddr.mk

/-- The pieces in which an address is written. -/
def pieces (pa : PhysAddr) : List String :=
  Text.Hex.address pa.raw

/-- An address as text: `0x` and at least eight digits. -/
def text (pa : PhysAddr) : String :=
  String.join pa.pieces

@[simp]
theorem raw_ofPage (n : Nat) : (ofPage n).raw = n * pageSize :=
  rfl

theorem isAligned_iff {pa : PhysAddr} : pa.isAligned = true ↔ pa.raw % pageSize = 0 :=
  isPageMultiple_iff

@[simp]
theorem isAligned_ofPage (n : Nat) : (ofPage n).isAligned = true := by
  simp [isAligned_iff]

theorem add?_eq_some_iff {pa sum : PhysAddr} {bytes : Nat} :
    pa.add? bytes = some sum ↔ pa.raw + bytes = sum.raw ∧ sum.raw < wordLimit := by
  cases sum
  simp [add?, Option.map_eq_some_iff, wordAdd?_eq_some_iff]

end PhysAddr

/-! ## Virtual addresses -/

namespace VirtAddr

/-- The base of virtual page number `n`. -/
def ofPage (n : Nat) : VirtAddr :=
  ⟨n * pageSize⟩

/-- Whether the address is the base of a page. -/
def isAligned (va : VirtAddr) : Bool :=
  isPageMultiple va.raw

/-- The base of the page that holds the address. -/
def pageBase (va : VirtAddr) : VirtAddr :=
  ⟨pageFloor va.raw⟩

/-- The offset of the address in its page. -/
def pageOffset (va : VirtAddr) : Nat :=
  va.raw % pageSize

/-- The address some pages further on. -/
def advance (va : VirtAddr) (pages : Nat) : VirtAddr :=
  ⟨va.raw + pages * pageSize⟩

/-- The address some bytes further on, if it fits in a machine word. -/
def add? (va : VirtAddr) (bytes : Nat) : Option VirtAddr :=
  (wordAdd? va.raw bytes).map VirtAddr.mk

/-- The virtual address of a number, if it is the base of a page. -/
def aligned? (raw : Nat) : Option VirtAddr :=
  if isPageMultiple raw then some ⟨raw⟩ else none

/-- The pieces in which an address is written. -/
def pieces (va : VirtAddr) : List String :=
  Text.Hex.address va.raw

/-- An address as text: `0x` and at least eight digits. -/
def text (va : VirtAddr) : String :=
  String.join va.pieces

/-- An address as a constructor term. -/
def term (va : VirtAddr) : Text.Term :=
  .applied "VirtAddr" (.nat va.raw)

@[simp]
theorem raw_ofPage (n : Nat) : (ofPage n).raw = n * pageSize :=
  rfl

theorem isAligned_iff {va : VirtAddr} : va.isAligned = true ↔ va.raw % pageSize = 0 :=
  isPageMultiple_iff

@[simp]
theorem isAligned_ofPage (n : Nat) : (ofPage n).isAligned = true := by
  simp [isAligned_iff]

theorem add?_eq_some_iff {va sum : VirtAddr} {bytes : Nat} :
    va.add? bytes = some sum ↔ va.raw + bytes = sum.raw ∧ sum.raw < wordLimit := by
  cases sum
  simp [add?, Option.map_eq_some_iff, wordAdd?_eq_some_iff]

end VirtAddr

end PagingKernel
