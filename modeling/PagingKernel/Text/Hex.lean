/-!
# Hexadecimal text

Numbers in the kernel's messages come in three hexadecimal forms: a bare
number behind `0x`, an address behind `0x` with at least eight digits, and a
fault address of at least eight upper-case digits.

Text that reaches the console is kept as the pieces in which it is written,
because the console may discard old output before every single piece.  Padding
zeros are pieces of their own.
-/

namespace PagingKernel.Text.Hex

/-- The lower-case hexadecimal digits of a number, without leading zeros. -/
def digits (n : Nat) : String :=
  String.ofList (Nat.toDigits 16 n)

/-- The upper-case hexadecimal digits of a number, without leading zeros. -/
def upperDigits (n : Nat) : String :=
  String.ofList ((Nat.toDigits 16 n).map Char.toUpper)

/-- Fewest digits an address is written with. -/
abbrev addressWidth : Nat := 8

/-- The zeros that bring a number up to the width of an address, one a piece. -/
def padding (n : Nat) : List String :=
  List.replicate (addressWidth - (Nat.toDigits 16 n).length) "0"

/-- A number: `0x`, then its digits. -/
def number (n : Nat) : List String :=
  ["0x", digits n]

/-- An address: `0x`, then at least eight digits. -/
def address (n : Nat) : List String :=
  "0x" :: (padding n ++ [digits n])

/-- A fault address: at least eight upper-case digits and no `0x`. -/
def faultAddress (n : Nat) : List String :=
  padding n ++ [upperDigits n]

end PagingKernel.Text.Hex
