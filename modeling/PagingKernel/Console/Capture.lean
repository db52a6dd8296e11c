/-!
# The captured console

What the kernel writes to its console is kept in memory, up to a limit.  When a
piece would go beyond the limit, the older half of the text is discarded first,
from its start up to the first character boundary at or behind its middle; then
the piece is added whatever its length.
-/

namespace PagingKernel

/-- The console's text, and whether somebody holds it. -/
structure Console where
  /-- The text kept so far. -/
  captured : String := ""
  /-- Whether somebody is writing to the console. -/
  held : Bool := false
deriving DecidableEq, Repr

namespace Console

/-- Bytes of text that are kept before old text is discarded. -/
abbrev captureLimit : Nat := 65536

/-- The text from the first character boundary at or behind its middle on. -/
def laterHalf (text : String) : String :=
  let middle : String.Pos.Raw := ⟨text.utf8ByteSize / 2⟩
  (text.sliceFrom (text.posGE middle (Nat.div_le_self _ _))).copy

/-- What is kept of a text is its end. -/
theorem laterHalf_isSuffix (text : String) : ∃ discarded, discarded ++ laterHalf text = text := by
  refine ⟨(text.sliceTo (text.posGE ⟨text.utf8ByteSize / 2⟩ (Nat.div_le_self _ _))).copy, ?_⟩
  simp [laterHalf]

/-- Adds a piece of text, discarding the older half first if the limit would be passed. -/
def write (console : Console) (piece : String) : Console :=
  let ⟨captured, held⟩ := console
  if captureLimit < captured.utf8ByteSize + piece.utf8ByteSize then
    ⟨laterHalf captured ++ piece, held⟩
  else ⟨captured ++ piece, held⟩

/-- Adds pieces of text in order. -/
def writeAll (console : Console) (pieces : List String) : Console :=
  pieces.foldl write console

/-- The text kept so far, and the console without it. -/
def take (console : Console) : String × Console :=
  (console.captured, { console with captured := "" })

/-- The console held by the caller, unless somebody holds it already. -/
def tryHold (console : Console) : Option Console :=
  if console.held then none else some { console with held := true }

/-- The console with nobody holding it. -/
def letGo (console : Console) : Console :=
  { console with held := false }

end Console

end PagingKernel
