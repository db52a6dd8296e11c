import PagingKernel.Memory
import PagingKernel.PageTable.Directory

/-!
# Address spaces

An address space is a page directory together with the owner to whom its
structural pages, the root and the page tables, are charged.  The kernel's own
space maps physical memory to itself.  The space of a process agrees with it
below `processStart`, where its entries are copies, and above that it maps
pages of its own; each of those counts one reference to the page.

Spaces grow by `map` and `mapFresh` and are taken apart by `release`, which
finds everything a space holds by walking its directory.  An operation is
refused because the ledger or the directory refuses, or because a user pointer
leads nowhere.
-/

namespace PagingKernel

open PageTable

/-- Why an operation on an address space is refused. -/
inductive AddressSpaceError where
  /-- The ledger refused a page or a reference. -/
  | alloc (cause : AllocError)
  /-- The mapping was refused. -/
  | mapping (cause : MapError)
  /-- User code may not access the address. -/
  | badUserAddress (va : VirtAddr)
deriving DecidableEq, Repr

namespace AddressSpaceError

/-- What an address space says when it refuses. -/
def message : AddressSpaceError → String
  | alloc cause => "page allocation failed: " ++ cause.message
  | mapping cause => "mapping failed: " ++ cause.message
  | badUserAddress va => "bad user address " ++ va.text

/-- The error as a constructor term. -/
def term : AddressSpaceError → Text.Term
  | alloc cause => .applied "Alloc" cause.term
  | mapping cause => .applied "Mapping" cause.term
  | badUserAddress va => .applied "BadUserAddress" va.term

end AddressSpaceError

/-- A page directory and the owner of the pages it is made of. -/
structure AddressSpace where
  /-- The directory that translates addresses. -/
  dir : Directory
  /-- To whom the root and the page tables are charged. -/
  owner : Owner
deriving DecidableEq, Repr

namespace AddressSpace

variable {ε : Type}

/-- The page that holds the directory of the space. -/
def root (space : AddressSpace) : PhysAddr :=
  space.dir.root

/-- What the page of an address is mapped to, if it is mapped. -/
def lookup (space : AddressSpace) (memory : Memory) (va : VirtAddr) :
    Except Fault (Option Mapping) :=
  space.dir.lookup memory.ram va

/-! ## Mapping pages -/

/-- Refuses if page `i` of a range to be mapped already maps a page other than the one meant. -/
def requireVacant (space : AddressSpace) (va : VirtAddr) (pa : PhysAddr) (i : Nat) :
    Action Memory AddressSpaceError Unit := do
  let page := va.advance i
  match ← Action.peek (space.lookup · page) with
  | none => return
  | some existing =>
      if pa.add? (i * pageSize) ≠ some existing.pa then
        Action.refuse (.mapping (.occupied page))

/-- Installs a cleared page table in the directory slot of a region that has none. -/
def installTable (space : AddressSpace) (region : Nat) : Action Memory AddressSpaceError Unit := do
  let slot := region % entryCount
  let installed ← Action.peek fun memory : Memory => space.dir.table? memory.ram slot
  if installed.isNone then
    let table ← (Memory.allocZeroed space.owner).mapCause .alloc
    Memory.onRam (space.dir.setDirEntry slot (encodeEntry table .userRW))

/-- Number of regions that the addresses from `start` up to `stop` lie in. -/
def regionSpan (start stop : Nat) : Nat :=
  if start < stop then (stop - 1) / regionSize - start / regionSize + 1 else 0

/-- Maps the `len` bytes at `va` to the `len` bytes at `pa`, installing the page tables that are
missing.  A page that is already mapped may only be mapped to the same physical page again, with
other flags.  Page tables stay installed when a later step refuses. -/
def map (space : AddressSpace) (va : VirtAddr) (pa : PhysAddr) (len : Nat) (flags : PageFlags) :
    Action Memory AddressSpaceError Unit := do
  if !(va.isAligned && isPageMultiple len) then
    Action.refuse (.mapping .unaligned)
  let stop ← Action.require (va.add? len) (.mapping .outOfRange)
  Action.forRange 0 (len / pageSize) (space.requireVacant va pa)
  Action.forRange (va.raw / regionSize) (regionSpan va.raw stop.raw) space.installTable
  (Memory.onRam (space.dir.map va pa len flags)).mapCause .mapping

/-- Drops a reference to the page at `pa`, on behalf of an address space. -/
def dropPage (pa : PhysAddr) : Action Memory AddressSpaceError Unit := do
  let _ ← (Memory.release pa).mapCause .alloc

/-- Maps a cleared page, taken for the owner of the space, at `va`; a refusal gives it back. -/
def mapFresh (space : AddressSpace) (va : VirtAddr) (flags : PageFlags) :
    Action Memory AddressSpaceError PhysAddr := do
  let pa ← (Memory.allocZeroed space.owner).mapCause .alloc
  (space.map va pa pageSize flags).onRefusal (dropPage pa)
  return pa

/-! ## Building spaces -/

/-- The kernel's own space: physical memory mapped to itself.  Page 0 stays unmapped, so that
following a null pointer is caught, and only the text console is open to user code. -/
def buildKernel : Action Memory AddressSpaceError AddressSpace := do
  let root ← (Memory.allocZeroed .kernel).mapCause .alloc
  let space : AddressSpace := ⟨⟨root⟩, .kernel⟩
  Action.forRange 1 (pageCount - 1) fun page =>
    let pa := PhysAddr.ofPage page
    space.map (.ofPage page) pa pageSize (Layout.kernelMappingFlags pa)
  return space

/-- Copies the entry that covers page number `page` from the kernel's space. -/
def copyKernelEntry (space kernel : AddressSpace) (page : Nat) :
    Action Memory AddressSpaceError Unit := do
  let va := VirtAddr.ofPage page
  let entry ← Action.peek fun memory : Memory => kernel.dir.entry? memory.ram va
  (Memory.onRam (space.dir.setEntry va (entry.getD 0))).mapCause .mapping

/-- A new space for a process: a root and one page table charged to it, with the kernel's entries
below `processStart` and nothing above. -/
def ofTemplate (kernel : AddressSpace) (pid : Pid) :
    Action Memory AddressSpaceError AddressSpace := do
  let owner := Owner.process pid
  let root ← (Memory.allocZeroed owner).mapCause .alloc
  let table ← ((Memory.allocZeroed owner).mapCause .alloc).onRefusal (dropPage root)
  let space : AddressSpace := ⟨⟨root⟩, owner⟩
  Memory.onRam (space.dir.setDirEntry 0 (encodeEntry table .userRW))
  Action.forRange 0 firstProcessPage (space.copyKernelEntry kernel)
  return space

/-! ## Taking a space apart -/

/-- Drops the reference that the space holds to the page mapped at page number `page`. -/
def dropMapping (space : AddressSpace) (page : Nat) : Action Memory AddressSpaceError Unit := do
  match ← Action.peek (space.lookup · (.ofPage page)) with
  | none => return
  | some mapping => dropPage mapping.pa

/-- Drops every reference the space holds: the pages mapped in the process range, then the page
tables, then the root.  Entries below `processStart` are copies and hold none. -/
def release (space : AddressSpace) : Action Memory AddressSpaceError Unit := do
  Action.forRange firstProcessPage processPageCount space.dropMapping
  let tables ← Action.peek fun memory : Memory => space.dir.tables memory.ram
  Action.forEach (fun (_, table) => dropPage table) tables
  dropPage space.root

end AddressSpace

end PagingKernel
