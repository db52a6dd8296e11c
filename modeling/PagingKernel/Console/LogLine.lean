import PagingKernel.Console.Capture

/-!
# Log lines

A log line has a level, a target that names the part of the kernel it comes
from, and a message.  It is written as `[LEVEL target] message` and a line
break, piece by piece.
-/

namespace PagingKernel

/-- How severe a log line is, the most severe first. -/
inductive Level where
  | error
  | warn
  | info
  | debug
  | trace
deriving DecidableEq, Repr

namespace Level

/-- The place of a level in the order of severity, 0 for the most severe. -/
def rank : Level → Nat
  | error => 0
  | warn => 1
  | info => 2
  | debug => 3
  | trace => 4

/-- All levels, the most severe first. -/
def all : List Level :=
  [error, warn, info, debug, trace]

/-- The name of a level in log lines. -/
def tag : Level → String
  | error => "ERROR"
  | warn => "WARN"
  | info => "INFO"
  | debug => "DEBUG"
  | trace => "TRACE"

/-- The level with a name. -/
def ofTag? (tag : String) : Option Level :=
  all.find? (·.tag = tag)

/-- The least severe level that is written. -/
def leastSevere : Level :=
  trace

/-- Whether lines of this level are written. -/
def isEnabled (level : Level) : Bool :=
  level.rank ≤ leastSevere.rank

instance : Ord Level :=
  ⟨fun first second => compare first.rank second.rank⟩

end Level

/-- A line of the log. -/
structure LogLine where
  /-- How severe the line is. -/
  level : Level
  /-- The part of the kernel that the line comes from. -/
  target : String
  /-- The pieces of the message. -/
  message : List String
deriving DecidableEq, Repr

/-- The pieces in which a line is written. -/
def LogLine.pieces (line : LogLine) : List String :=
  ["[", line.level.tag, " ", line.target, "] "] ++ line.message ++ ["\n"]

/-- Writes a line to the console, if lines of its level are written. -/
def Console.emit (console : Console) (line : LogLine) : Console :=
  if line.level.isEnabled then console.writeAll line.pieces else console

end PagingKernel
