import PagingKernel.Pid

/-!
# Boot workloads

The boot loader may pass a command.  Without the white space at its two ends it
selects the workload: which programs run at boot, and in which slots of the
process table.
-/

namespace PagingKernel

namespace Text

/-- The ranges of code points with the Unicode property `White_Space`, both ends included. -/
def blankRanges : List (Nat × Nat) :=
  [(0x09, 0x0d), (0x20, 0x20), (0x85, 0x85), (0xa0, 0xa0), (0x1680, 0x1680),
   (0x2000, 0x200a), (0x2028, 0x2029), (0x202f, 0x202f), (0x205f, 0x205f), (0x3000, 0x3000)]

/-- Whether a character is white space. -/
def isBlank (c : Char) : Bool :=
  blankRanges.any fun (low, high) => low ≤ c.toNat && c.toNat ≤ high

/-- A text without the white space at its two ends. -/
def trimBlanks (text : String) : String :=
  let leading := text.toList.dropWhile isBlank
  String.ofList (leading.reverse.dropWhile isBlank).reverse

end Text

/-- The programs that run at boot. -/
inductive Workload where
  /-- Four processes running programs 0 to 3. -/
  | standard
  /-- One process running the fork demonstration. -/
  | fork
  /-- One process running the demonstration of fork and exit. -/
  | forkExit
deriving DecidableEq, Repr

namespace Workload

/-- The workload a boot command selects; what is not recognised selects the standard one. -/
def ofCommand (command : Option String) : Workload :=
  match command.map Text.trimBlanks with
  | some "fork" => fork
  | some "forkexit" => forkExit
  | _ => standard

/-- The processes of a workload with their programs, in the order in which they are created. -/
def processes : Workload → List (Pid × Nat)
  | standard => [(⟨1⟩, 0), (⟨2⟩, 1), (⟨3⟩, 2), (⟨4⟩, 3)]
  | fork => [(⟨1⟩, 4)]
  | forkExit => [(⟨1⟩, 5)]

/-- The process of a workload that runs first. -/
def firstPid (workload : Workload) : Pid :=
  match workload.processes with
  | (pid, _) :: _ => pid
  | [] => ⟨1⟩

/-- The name of a workload in messages. -/
def name : Workload → String
  | standard => "Default"
  | fork => "Fork"
  | forkExit => "ForkExit"

end Workload

end PagingKernel
