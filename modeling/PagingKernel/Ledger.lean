import PagingKernel.Layout

/-!
# The page ledger

For every page of physical memory the ledger says who owns it and how many
references there are to it.  A page is taken by `allocate`, gains references by
`share` and loses them by `release`; with the last one it is free again.

An address has to name a page exactly: `pageNumber` refuses one that is not the
base of a page or lies beyond physical memory, and every operation asks it
first.  A refused operation answers without a ledger, so it changes nothing.
-/

namespace PagingKernel

/-- Whom a physical page belongs to. -/
inductive Owner where
  /-- Nobody. -/
  | free
  /-- The hardware: page 0 and the device hole. -/
  | reserved
  /-- The kernel. -/
  | kernel
  /-- A process. -/
  | process (pid : Pid)
deriving DecidableEq, Repr

/-- The pieces in which an owner is written. -/
def Owner.pieces : Owner → List String
  | free => ["free"]
  | reserved => ["reserved"]
  | kernel => ["kernel"]
  | process pid => ["pid ", pid.text]

/-- The ledger's entry for one page. -/
structure PageInfo where
  /-- Whom the page belongs to. -/
  owner : Owner
  /-- How many references there are to the page. -/
  refcount : Nat
deriving DecidableEq, Repr

namespace PageInfo

/-- The entry of a page that nobody has. -/
def unowned : PageInfo :=
  ⟨.free, 0⟩

instance : Inhabited PageInfo :=
  ⟨unowned⟩

/-- Whether there is no reference to the page. -/
def isFree (info : PageInfo) : Bool :=
  info.refcount = 0

end PageInfo

/-- The greatest number of references to one page. -/
abbrev refcountLimit : Nat := 255

/-- Why the ledger refuses an operation. -/
inductive AllocError where
  /-- The address is not the base of a page. -/
  | unaligned
  /-- The address lies beyond physical memory. -/
  | outOfRange
  /-- The page already has references. -/
  | inUse
  /-- The page has no references where one is needed. -/
  | notAllocated
  /-- A page cannot be allocated to nobody. -/
  | invalidOwner
  /-- The page has as many references as can be counted. -/
  | refcountOverflow
  /-- No page is free. -/
  | outOfMemory
deriving DecidableEq, Repr

namespace AllocError

/-- What the ledger says when it refuses. -/
def message : AllocError → String
  | unaligned => "physical address not page aligned"
  | outOfRange => "physical address beyond physical memory"
  | inUse => "physical page already allocated"
  | notAllocated => "physical page not allocated"
  | invalidOwner => "cannot allocate a page to the free owner"
  | refcountOverflow => "physical page reference count overflow"
  | outOfMemory => "out of physical memory"

/-- The error as a constructor term. -/
def term : AllocError → Text.Term
  | unaligned => .atom "Unaligned"
  | outOfRange => .atom "OutOfRange"
  | inUse => .atom "InUse"
  | notAllocated => .atom "NotAllocated"
  | invalidOwner => .atom "InvalidOwner"
  | refcountOverflow => .atom "RefcountOverflow"
  | outOfMemory => .atom "OutOfMemory"

end AllocError

/-- Owners and reference counts of all pages of physical memory. -/
structure Ledger where
  /-- One entry for each page, by page number. -/
  pages : Vector PageInfo pageCount

namespace Ledger

/-- The number of the page whose base is `pa`. -/
def pageNumber (pa : PhysAddr) : Except AllocError (Fin pageCount) :=
  if !pa.isAligned then .error .unaligned
  else if inside : pa.raw < physicalSize then
    .ok ⟨pa.raw / pageSize, Nat.div_lt_of_lt_mul inside⟩
  else .error .outOfRange

/-- The entry of a page. -/
def entry (ledger : Ledger) (page : Fin pageCount) : PageInfo :=
  ledger.pages[page]

/-- The ledger with the entry of one page replaced. -/
def setEntry (ledger : Ledger) (page : Fin pageCount) (info : PageInfo) : Ledger :=
  ⟨ledger.pages.set page info⟩

@[simp]
theorem entry_setEntry_self (ledger : Ledger) (page : Fin pageCount) (info : PageInfo) :
    (ledger.setEntry page info).entry page = info := by
  simp [entry, setEntry]

theorem entry_setEntry (ledger : Ledger) (page other : Fin pageCount) (info : PageInfo) :
    (ledger.setEntry page info).entry other =
      if other = page then info else ledger.entry other := by
  simp only [entry, setEntry, Fin.getElem_fin, Vector.getElem_set]
  by_cases same : other = page
  · simp [same]
  · rw [if_neg same, if_neg]
    intro sameNumber
    exact same (Fin.ext sameNumber.symm)

/-- A ledger is determined by its entries. -/
theorem ext_entry {first second : Ledger} (same : ∀ page, first.entry page = second.entry page) :
    first = second := by
  obtain ⟨firstPages⟩ := first
  obtain ⟨secondPages⟩ := second
  simp only [mk.injEq]
  ext1 number inside
  exact same ⟨number, inside⟩

theorem pageNumber_eq_ok_iff {pa : PhysAddr} {page : Fin pageCount} :
    pageNumber pa = .ok page ↔ pa = .ofPage page := by
  obtain ⟨raw⟩ := pa
  obtain ⟨number, bound⟩ := page
  simp only [pageNumber, PhysAddr.ofPage, PhysAddr.mk.injEq, PhysAddr.isAligned, isPageMultiple]
  constructor
  · intro found
    split at found
    · cases found
    · split at found
      · cases found
        simp only [pageSize] at *
        simp_all
        omega
      · cases found
  · rintro rfl
    have inside : number * pageSize < physicalSize := by
      simp only [pageSize, physicalSize, pageCount] at *
      omega
    simp [inside]

/-! ## The partition at boot -/

/-- The entry of a page at boot: what is not set aside is free. -/
def bootEntry (layout : Layout) (pa : PhysAddr) : Except Fault PageInfo := do
  if Layout.isReserved pa then
    return ⟨.reserved, 1⟩
  if ← layout.isKernel pa then
    return ⟨.kernel, 1⟩
  return .unowned

/-- The ledger at boot. -/
def ofLayout (layout : Layout) : Except Fault Ledger :=
  Ledger.mk <$> Vector.ofFnM fun page => bootEntry layout (.ofPage page)

/-! ## Operations -/

/-- The entry of the page at `pa`. -/
def info (ledger : Ledger) (pa : PhysAddr) : Except AllocError PageInfo :=
  ledger.entry <$> pageNumber pa

/-- Makes `owner` the only user of the free page at `pa`. -/
def allocate (ledger : Ledger) (pa : PhysAddr) (owner : Owner) : Except AllocError Ledger := do
  let page ← pageNumber pa
  if owner = .free then
    throw .invalidOwner
  if (ledger.entry page).refcount ≠ 0 then
    throw .inUse
  return ledger.setEntry page ⟨owner, 1⟩

/-- The lowest page without an owner. -/
def findFree (ledger : Ledger) : Option PhysAddr :=
  (ledger.pages.findFinIdx? (·.owner = .free)).map fun page => .ofPage page

/-- Adds a reference to a page that has some, and tells how many there are now. -/
def share (ledger : Ledger) (pa : PhysAddr) : Except AllocError (Nat × Ledger) := do
  let page ← pageNumber pa
  let current := ledger.entry page
  if current.refcount = 0 then
    throw .notAllocated
  if refcountLimit ≤ current.refcount then
    throw .refcountOverflow
  let refcount := current.refcount + 1
  return (refcount, ledger.setEntry page { current with refcount })

/-- Drops a reference to a page and tells how many are left; with the last the page is free. -/
def release (ledger : Ledger) (pa : PhysAddr) : Except AllocError (Nat × Ledger) := do
  let page ← pageNumber pa
  let current := ledger.entry page
  if current.refcount = 0 then
    throw .notAllocated
  let refcount := current.refcount - 1
  let owner := if refcount = 0 then .free else current.owner
  return (refcount, ledger.setEntry page ⟨owner, refcount⟩)

/-- Number of pages without references. -/
def freePages (ledger : Ledger) : Nat :=
  ledger.pages.countP (·.isFree)

/-- Number of referenced pages that belong to `owner`. -/
def pagesOwnedBy (ledger : Ledger) (owner : Owner) : Nat :=
  ledger.pages.countP fun info => info.owner = owner && !info.isFree

end Ledger

end PagingKernel
