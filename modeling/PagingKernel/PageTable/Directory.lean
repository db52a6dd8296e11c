import PagingKernel.PageTable.Entry
import PagingKernel.Ram

/-!
# Page directories

A directory is a physical page of 1024 entries, each of which may refer to a
page table; a page table is a physical page of 1024 entries, each of which may
refer to a page.  An address selects an entry of the directory by its top ten
bits and an entry of the page table by the ten bits below.

This module reads and writes the entries, and refuses with a `MapError` what
cannot be mapped.  Which pages back a mapping, and who owns them, is decided by
address spaces.  Directories are just bytes in RAM and may refer to anything;
following a reference out of RAM is a fault.
-/

namespace PagingKernel

open PageTable

namespace PageTable

/-- Entries in a directory or page table. -/
abbrev entryCount : Nat := 1024

/-- Bytes in an entry. -/
abbrev entrySize : Nat := 4

/-- Bytes of addresses that one entry of a directory covers. -/
abbrev regionSize : Nat := 0x400000

/-- The entry of the directory that covers an address. -/
def dirIndex (va : VirtAddr) : Nat :=
  va.raw / regionSize % entryCount

/-- The entry of the page table that covers an address. -/
def tableIndex (va : VirtAddr) : Nat :=
  va.raw / pageSize % entryCount

/-- The address of an entry in a page of entries. -/
def entryAddress (page : PhysAddr) (index : Nat) : PhysAddr :=
  ⟨page.raw + index * entrySize⟩

/-- What goes wrong first on the way to an entry that does not lie in RAM. -/
def entryFault (page : PhysAddr) (index : Nat) : Fault :=
  if wordLimit ≤ index * entrySize then .overflow .multiply
  else if wordLimit ≤ page.raw + index * entrySize then .overflow .add
  else .outsideRam (entryAddress page index) entrySize

/-- Reads an entry. -/
def readEntry (ram : Ram) (page : PhysAddr) (index : Nat) : Except Fault UInt32 :=
  let pa := entryAddress page index
  if Ram.Covers pa entrySize then .ok (ram.word pa.raw) else .error (entryFault page index)

/-- Writes an entry. -/
def writeEntry {ε : Type} (page : PhysAddr) (index : Nat) (value : UInt32) :
    Action Ram ε Unit := fun ram =>
  let pa := entryAddress page index
  if Ram.Covers pa entrySize then .ok () (ram.store pa.raw entrySize (Ram.wordByte value))
  else .error (.faulted (entryFault page index)) ram

end PageTable

/-- Why a mapping is refused. -/
inductive MapError where
  /-- An address or a length is not a multiple of the page size. -/
  | unaligned
  /-- The range leaves the addresses that paging translates. -/
  | outOfRange
  /-- No page table is installed in the directory slot that covers an address. -/
  | missingTable (dirIndex : Nat)
  /-- The virtual page already maps another physical page. -/
  | occupied (va : VirtAddr)
deriving DecidableEq, Repr

namespace MapError

/-- What a directory says when it refuses a mapping. -/
def message : MapError → String
  | unaligned => "address not page aligned"
  | outOfRange => "mapping out of range"
  | missingTable dirIndex => "no page table behind directory slot " ++ dirIndex.repr
  | occupied va => String.join (Text.Hex.number va.raw) ++ " already maps another page"

/-- The error as a constructor term. -/
def term : MapError → Text.Term
  | unaligned => .atom "Unaligned"
  | outOfRange => .atom "OutOfRange"
  | missingTable dirIndex => .labelled "MissingTable" "dir_index" (.nat dirIndex)
  | occupied va => .labelled "Occupied" "va" (.nat va.raw)

end MapError

/-- A page directory in physical memory. -/
structure Directory where
  /-- The page that holds the directory's entries. -/
  root : PhysAddr
deriving DecidableEq, Repr

namespace Directory

variable {ε : Type}

/-- Entry `index` of the directory. -/
def dirEntry (dir : Directory) (ram : Ram) (index : Nat) : Except Fault UInt32 :=
  readEntry ram dir.root index

/-- Replaces entry `index` of the directory. -/
def setDirEntry (dir : Directory) (index : Nat) (value : UInt32) : Action Ram ε Unit :=
  writeEntry dir.root index value

/-- The page table that entry `index` of the directory refers to, if it is present. -/
def table? (dir : Directory) (ram : Ram) (index : Nat) : Except Fault (Option PhysAddr) := do
  let entry ← dir.dirEntry ram index
  return (decodeEntry entry).map (·.pa)

/-- The page tables that the `count` entries from `index` on refer to. -/
def tablesFrom (dir : Directory) (ram : Ram) (index : Nat) :
    (count : Nat) → Except Fault (List (Nat × PhysAddr))
  | 0 => .ok []
  | count + 1 => do
      let found ← dir.table? ram index
      let later ← dir.tablesFrom ram (index + 1) count
      return found.elim later fun table => (index, table) :: later

/-- The page tables of the directory with their slots, in the order of the slots. -/
def tables (dir : Directory) (ram : Ram) : Except Fault (List (Nat × PhysAddr)) :=
  dir.tablesFrom ram 0 entryCount

/-- The entry that covers an address, if a page table does. -/
def entry? (dir : Directory) (ram : Ram) (va : VirtAddr) : Except Fault (Option UInt32) := do
  match ← dir.table? ram (dirIndex va) with
  | none => return none
  | some table => return some (← readEntry ram table (tableIndex va))

/-- What the page of an address is mapped to, if it is mapped. -/
def lookup (dir : Directory) (ram : Ram) (va : VirtAddr) : Except Fault (Option Mapping) := do
  let entry ← dir.entry? ram va
  return entry.bind decodeEntry

/-- The page table that covers an address. -/
def requireTable (dir : Directory) (va : VirtAddr) : Action Ram MapError PhysAddr := do
  let found ← Action.peek (dir.table? · (dirIndex va))
  Action.require found (.missingTable (dirIndex va))

/-- Replaces the entry that covers an address. -/
def setEntry (dir : Directory) (va : VirtAddr) (value : UInt32) : Action Ram MapError Unit := do
  let table ← dir.requireTable va
  writeEntry table (tableIndex va) value

/-- The bounds that a range has to keep before it is mapped. -/
def checkRange (va : VirtAddr) (pa : PhysAddr) (len : Nat) : Except MapError Unit := do
  if !(va.isAligned && pa.isAligned && isPageMultiple len) then
    throw .unaligned
  let some vaEnd := va.add? len | throw .outOfRange
  let some paEnd := pa.add? len | throw .outOfRange
  if addressLimit < vaEnd.raw || addressLimit < paEnd.raw then
    throw .outOfRange

/-- Maps the `len` bytes at `va` to the `len` bytes at `pa`.  All page tables that the range needs
have to be installed, and nothing is written otherwise.  Flags without `present` take the mappings
of the range away. -/
def map (dir : Directory) (va : VirtAddr) (pa : PhysAddr) (len : Nat) (flags : PageFlags) :
    Action Ram MapError Unit := do
  Action.ofExcept (checkRange va pa len)
  let pages := len / pageSize
  Action.forRange 0 pages fun i => do
    let _ ← dir.requireTable (va.advance i)
  Action.forRange 0 pages fun i =>
    dir.setEntry (va.advance i) (encodeEntry (pa.advance i) flags)

end Directory

end PagingKernel
