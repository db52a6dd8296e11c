import PagingKernel.Address
import PagingKernel.PageFlags

/-!
# Entries of page directories and page tables

An entry is a 32-bit word.  Its high twenty bits are the base of a physical
page, its low bits are flags, and without the flag `present` it refers to
nothing.
-/

namespace PagingKernel

/-- A page that an entry refers to, with the permissions of the reference. -/
structure Mapping where
  /-- The base of the page. -/
  pa : PhysAddr
  /-- What the reference permits. -/
  flags : PageFlags
deriving DecidableEq, Repr

namespace PageTable

/-- The entry that refers to the page of `pa`; without `present` it is empty. -/
def encodeEntry (pa : PhysAddr) (flags : PageFlags) : UInt32 :=
  if flags.present then UInt32.ofNat (pageFloor (pa.raw % addressLimit) + flags.bits) else 0

/-- What an entry refers to, if it is present. -/
def decodeEntry (entry : UInt32) : Option Mapping :=
  if entry.toNat % 2 = 1 then some ⟨⟨pageFloor entry.toNat⟩, .ofBits entry.toNat⟩ else none

@[simp]
theorem decodeEntry_zero : decodeEntry 0 = none :=
  rfl

/-- An entry refers to the page it was made for, in the low four gigabytes. -/
theorem decodeEntry_encodeEntry (pa : PhysAddr) (flags : PageFlags) :
    decodeEntry (encodeEntry pa flags) =
      if flags.present then some ⟨⟨pageFloor (pa.raw % addressLimit)⟩, flags⟩ else none := by
  by_cases present : flags.present = true
  · have small := flags.bits_lt
    have truncated := PageFlags.ofBits_bits flags
    have parity : flags.bits % 2 = 1 := by
      simp only [PageFlags.bits, present, Bool.toNat_true]
      omega
    have stored : (UInt32.ofNat (pageFloor (pa.raw % addressLimit) + flags.bits)).toNat =
        pageFloor (pa.raw % addressLimit) + flags.bits := by
      simp only [UInt32.toNat_ofNat', pageFloor, pageSize, addressLimit, PageFlags.valueCount] at *
      omega
    have low : (pageFloor (pa.raw % addressLimit) + flags.bits) % PageFlags.valueCount =
        flags.bits := by
      simp only [pageFloor, pageSize, addressLimit, PageFlags.valueCount] at *
      omega
    have odd : (pageFloor (pa.raw % addressLimit) + flags.bits) % 2 = 1 := by
      simp only [pageFloor, pageSize]
      omega
    have base : pageFloor (pageFloor (pa.raw % addressLimit) + flags.bits) =
        pageFloor (pa.raw % addressLimit) := by
      simp only [pageFloor, pageSize, PageFlags.valueCount] at *
      omega
    simp only [encodeEntry, decodeEntry, present, if_true, stored, odd, base]
    rw [← PageFlags.ofBits_mod, low, truncated]
  · simp [encodeEntry, present]

/-- An entry for an aligned page that it can hold refers to exactly that page. -/
theorem decodeEntry_encodeEntry_of_present {pa : PhysAddr} {flags : PageFlags}
    (present : flags.present = true) (aligned : pa.isAligned = true)
    (small : pa.raw < addressLimit) :
    decodeEntry (encodeEntry pa flags) = some ⟨pa, flags⟩ := by
  rw [decodeEntry_encodeEntry, if_pos present, Nat.mod_eq_of_lt small]
  have exact := pageFloor_add_mod pa.raw
  rw [PhysAddr.isAligned_iff.mp aligned, Nat.add_zero] at exact
  rw [exact]

/-- What a present entry refers to is the base of a page below four gigabytes. -/
theorem decodeEntry_eq_some {entry : UInt32} {mapping : Mapping}
    (decoded : decodeEntry entry = some mapping) :
    mapping.flags.present = true ∧ mapping.pa.isAligned = true ∧
      mapping.pa.raw < addressLimit := by
  unfold decodeEntry at decoded
  split at decoded
  · rename_i odd
    cases decoded
    refine ⟨by simp [PageFlags.ofBits, odd], by simp [PhysAddr.isAligned], ?_⟩
    exact Nat.lt_of_le_of_lt (pageFloor_le _) entry.toNat_lt
  · cases decoded

end PageTable

end PagingKernel
