/-!
# Page permissions

The seven low bits that an entry of a page directory or page table carries.
`PageFlags.bits` and `PageFlags.ofBits` pass between the flags and the number
they are stored as; bits above the seventh mean nothing.
-/

namespace PagingKernel

/-- The permission and status bits of an entry. -/
structure PageFlags where
  /-- The entry refers to a page. -/
  present : Bool
  /-- The page may be written. -/
  writable : Bool
  /-- User code may access the page. -/
  user : Bool
  /-- Writes go through to memory. -/
  writeThrough : Bool
  /-- The page is not cached. -/
  cacheDisable : Bool
  /-- The page has been accessed. -/
  accessed : Bool
  /-- The page has been written. -/
  dirty : Bool
deriving DecidableEq, Repr

namespace PageFlags

/-- Number of the values that the bits take. -/
abbrev valueCount : Nat := 128

/-- The flags stored in the low bits of a number. -/
def ofBits (n : Nat) : PageFlags where
  present := n % 2 = 1
  writable := n / 2 % 2 = 1
  user := n / 4 % 2 = 1
  writeThrough := n / 8 % 2 = 1
  cacheDisable := n / 16 % 2 = 1
  accessed := n / 32 % 2 = 1
  dirty := n / 64 % 2 = 1

/-- The number that flags are stored as. -/
def bits (flags : PageFlags) : Nat :=
  flags.present.toNat + 2 * flags.writable.toNat + 4 * flags.user.toNat
    + 8 * flags.writeThrough.toNat + 16 * flags.cacheDisable.toNat
    + 32 * flags.accessed.toNat + 64 * flags.dirty.toNat

theorem bits_lt (flags : PageFlags) : flags.bits < valueCount := by
  obtain ⟨p, w, u, t, c, a, d⟩ := flags
  have := p.toNat_le
  have := w.toNat_le
  have := u.toNat_le
  have := t.toNat_le
  have := c.toNat_le
  have := a.toNat_le
  have := d.toNat_le
  simp only [bits, valueCount]
  omega

@[simp]
theorem ofBits_bits (flags : PageFlags) : ofBits flags.bits = flags := by
  obtain ⟨p, w, u, t, c, a, d⟩ := flags
  cases p <;> cases w <;> cases u <;> cases t <;> cases c <;> cases a <;> cases d <;> rfl

theorem ofBits_mod (n : Nat) : ofBits (n % valueCount) = ofBits n := by
  simp only [ofBits, valueCount, mk.injEq, decide_eq_decide]
  omega

/-- No flag is set. -/
def empty : PageFlags :=
  ofBits 0

/-- Reading and writing by the kernel alone. -/
def kernelRW : PageFlags :=
  { empty with present := true, writable := true }

/-- Reading by user code. -/
def userRO : PageFlags :=
  { empty with present := true, user := true }

/-- Reading and writing by user code. -/
def userRW : PageFlags :=
  { empty with present := true, writable := true, user := true }

/-- Whether user code may write the page. -/
def isUserWritable (flags : PageFlags) : Bool :=
  flags.present && flags.writable && flags.user

/-- Whether user code may read the page but not write it. -/
def isUserReadOnly (flags : PageFlags) : Bool :=
  flags.present && flags.user && !flags.writable

/-- A page is never both writable and read-only. -/
theorem isUserReadOnly_eq_false_of_isUserWritable {flags : PageFlags}
    (writable : flags.isUserWritable = true) : flags.isUserReadOnly = false := by
  simp only [isUserWritable, Bool.and_eq_true] at writable
  simp [isUserReadOnly, writable.1.2]

end PageFlags

end PagingKernel
