import PagingKernel.Address

/-!
# The memory map

Where things lie in the two megabytes of physical memory and in the three
megabytes of every address space.  Below `processStart` all address spaces
agree with the kernel's own; from there up to `virtualSize` each process has
its own pages, the last of which is its stack.
-/

namespace PagingKernel

/-- Bytes of physical memory. -/
abbrev physicalSize : Nat := 0x200000

/-- Pages of physical memory. -/
abbrev pageCount : Nat := 512

/-- Exclusive bound of the addresses of a process. -/
abbrev virtualSize : Nat := 0x300000

/-- The first address that belongs to processes. -/
abbrev processStart : Nat := 0x100000

/-- The page that holds a process's first stack; programs lie below it. -/
abbrev processStack : Nat := 0x2ff000

/-- The first page number of the process range. -/
abbrev firstProcessPage : Nat := 256

/-- Pages of the process range. -/
abbrev processPageCount : Nat := 512

/-- Slots of the process table, the reserved slot 0 among them. -/
abbrev slotCount : Nat := 16

/-- Timer interrupts in a second. -/
abbrev timerFrequency : Nat := 100

/-- Start of the hole that memory-mapped devices occupy. -/
abbrev deviceStart : Nat := 0xa0000

/-- End of the hole that memory-mapped devices occupy. -/
abbrev deviceEnd : Nat := 0x100000

/-- The page of the text console, the only page below `processStart` open to user code. -/
abbrev consoleAddress : Nat := 0xb8000

theorem pageCount_mul_pageSize : pageCount * pageSize = physicalSize :=
  rfl

end PagingKernel
