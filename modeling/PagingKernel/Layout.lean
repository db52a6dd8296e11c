import PagingKernel.Fault
import PagingKernel.MemoryMap
import PagingKernel.PageFlags

/-!
# The layout of the kernel in physical memory

A `Layout` says where the kernel's image and stack lie.  It decides which pages
are set aside at boot: page 0 and the device hole are reserved, the image and
the page just below the top of the stack belong to the kernel.
-/

namespace PagingKernel

/-- Where the kernel's image and stack lie in physical memory. -/
structure Layout where
  /-- First byte of the kernel's image. -/
  imageStart : Nat := 0x40000
  /-- One past the last byte of the kernel's image. -/
  imageEnd : Nat := 0x58000
  /-- Top of the kernel's stack, which grows down from here. -/
  stackTop : Nat := 0x80000
deriving DecidableEq, Repr

namespace Layout

/-- Whether an address lies in page 0 or in the device hole. -/
def isReserved (pa : PhysAddr) : Bool :=
  pa.raw < pageSize || (deviceStart ≤ pa.raw && pa.raw < deviceEnd)

/-- Whether an address lies in the kernel's image. -/
def inImage (layout : Layout) (pa : PhysAddr) : Bool :=
  layout.imageStart ≤ pa.raw && pa.raw < layout.imageEnd

/-- The page just below the top of the stack, unless the top is too low to have one. -/
def stackPage? (layout : Layout) : Option PhysAddr :=
  if pageSize ≤ layout.stackTop then some ⟨layout.stackTop - pageSize⟩ else none

/-- Whether a page is part of the kernel's image or is its stack page. -/
def isKernel (layout : Layout) (pa : PhysAddr) : Except Fault Bool :=
  if layout.inImage pa then .ok true
  else
    match layout.stackPage? with
    | some page => .ok (pa = page)
    | none => .error (.overflow .subtract)

/-- The permissions with which the kernel's own directory maps a page of physical memory. -/
def kernelMappingFlags (pa : PhysAddr) : PageFlags :=
  if pa.raw = consoleAddress then .userRW else .kernelRW

theorem isReserved_iff {pa : PhysAddr} :
    isReserved pa = true ↔ pa.raw < pageSize ∨ deviceStart ≤ pa.raw ∧ pa.raw < deviceEnd := by
  simp [isReserved]

/-- With room for a stack page, the kernel's pages are its image and that page. -/
theorem isKernel_eq_ok {layout : Layout} (room : pageSize ≤ layout.stackTop) (pa : PhysAddr) :
    layout.isKernel pa =
      .ok (layout.inImage pa || decide (pa.raw = layout.stackTop - pageSize)) := by
  obtain ⟨raw⟩ := pa
  simp only [isKernel, stackPage?, room, if_true, PhysAddr.mk.injEq]
  split <;> simp_all

end Layout

end PagingKernel
