/-!
# Constructor terms

Some messages show a value as the term that builds it: a constructor's name,
its arguments in round brackets when they go by position, and in curly
brackets when they go by name, as in `AlreadyMapped(VirtAddr(1048576))` and
`Occupied { va: 4096 }`.  `Term` is such a value; `Term.pieces` writes it.
-/

namespace PagingKernel.Text

/-- A value shown as the constructor term that builds it. -/
inductive Term where
  /-- A constructor without arguments, or a number. -/
  | atom (text : String)
  /-- A constructor with one argument by position. -/
  | applied (name : String) (argument : Term)
  /-- A constructor with one argument by name. -/
  | labelled (name field : String) (argument : Term)
deriving DecidableEq, Repr

namespace Term

/-- The term of a natural number: its decimal digits. -/
def nat (n : Nat) : Term :=
  .atom n.repr

/-- The pieces in which a term is written. -/
def pieces : Term → List String
  | atom text => [text]
  | applied name argument => [name, "("] ++ argument.pieces ++ [")"]
  | labelled name field argument =>
      [name, " \x7b ", field, ": "] ++ argument.pieces ++ [" \x7d"]

/-- A term as one text. -/
def text (term : Term) : String :=
  String.join term.pieces

end Term

end PagingKernel.Text
