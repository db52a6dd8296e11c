/-!
# Reading bytes as UTF-8

`decodeLossy` reads any bytes as text.  A well-formed sequence is its
character.  Where the bytes are not well formed, the longest start of a
well-formed sequence found there, or a single byte if there is none, is
replaced by the replacement character, and reading goes on behind it.

Text that was written as UTF-8 is read back unchanged
(`decodeLossy_flatMap_utf8EncodeChar`).
-/

namespace PagingKernel.Text.Utf8

/-- The character that stands for bytes that are not UTF-8. -/
def replacement : Char := '\uFFFD'

/-- The low six bits of a continuation byte. -/
def continuationBits (byte : UInt8) : Nat :=
  byte.toNat % 64

/-- The bytes that may follow any byte of a sequence but the first. -/
def isContinuation (byte : UInt8) : Bool :=
  0x80 ≤ byte.toNat && byte.toNat ≤ 0xbf

/-- The bytes that may follow the first byte of a sequence of three. -/
def isSecondOfThree (first byte : UInt8) : Bool :=
  let low := if first.toNat = 0xe0 then 0xa0 else 0x80
  let high := if first.toNat = 0xed then 0x9f else 0xbf
  low ≤ byte.toNat && byte.toNat ≤ high

/-- The bytes that may follow the first byte of a sequence of four. -/
def isSecondOfFour (first byte : UInt8) : Bool :=
  let low := if first.toNat = 0xf0 then 0x90 else 0x80
  let high := if first.toNat = 0xf4 then 0x8f else 0xbf
  low ≤ byte.toNat && byte.toNat ≤ high

/-- The next character and the bytes it does not use, given the first byte and those after it. -/
def next (first : UInt8) (rest : List UInt8) : Char × List UInt8 :=
  if first.toNat < 0x80 then
    (Char.ofNat first.toNat, rest)
  else if 0xc2 ≤ first.toNat && first.toNat ≤ 0xdf then
    match rest with
    | second :: rest' =>
        if isContinuation second then
          (Char.ofNat (first.toNat % 32 * 64 + continuationBits second), rest')
        else (replacement, rest)
    | [] => (replacement, [])
  else if 0xe0 ≤ first.toNat && first.toNat ≤ 0xef then
    match rest with
    | second :: rest' =>
        if isSecondOfThree first second then
          match rest' with
          | third :: rest'' =>
              if isContinuation third then
                (Char.ofNat ((first.toNat % 16 * 64 + continuationBits second) * 64
                  + continuationBits third), rest'')
              else (replacement, rest')
          | [] => (replacement, [])
        else (replacement, rest)
    | [] => (replacement, [])
  else if 0xf0 ≤ first.toNat && first.toNat ≤ 0xf4 then
    match rest with
    | second :: rest' =>
        if isSecondOfFour first second then
          match rest' with
          | third :: rest'' =>
              if isContinuation third then
                match rest'' with
                | fourth :: rest''' =>
                    if isContinuation fourth then
                      (Char.ofNat (((first.toNat % 8 * 64 + continuationBits second) * 64
                        + continuationBits third) * 64 + continuationBits fourth), rest''')
                    else (replacement, rest'')
                | [] => (replacement, [])
              else (replacement, rest')
          | [] => (replacement, [])
        else (replacement, rest)
    | [] => (replacement, [])
  else (replacement, rest)

/-- No character is read from fewer bytes than its first. -/
theorem length_next_le (first : UInt8) (rest : List UInt8) :
    (next first rest).2.length ≤ rest.length := by
  unfold next
  repeat' split
  all_goals simp <;> omega

/-- The text that the bytes stand for, with the replacement character for what is not UTF-8. -/
def decodeLossy : List UInt8 → List Char
  | [] => []
  | first :: rest =>
      let step := next first rest
      step.1 :: decodeLossy step.2
termination_by bytes => bytes.length
decreasing_by
  have shorter := length_next_le first rest
  simp only [List.length_cons]
  omega

/-- The text of a run of bytes. -/
def text (bytes : List UInt8) : String :=
  String.ofList (decodeLossy bytes)

/-! ## Well-formed bytes -/

theorem decodeLossy_cons (first : UInt8) (rest : List UInt8) :
    decodeLossy (first :: rest) = (next first rest).1 :: decodeLossy (next first rest).2 := by
  rw [decodeLossy]

/-- A well-formed sequence is read as its character, and reading goes on behind it. -/
theorem decodeLossy_utf8EncodeChar_append (c : Char) (rest : List UInt8) :
    decodeLossy (String.utf8EncodeChar c ++ rest) = c :: decodeLossy rest := by
  have range : c.val.toNat < 0xd800 ∨ 0xdfff < c.val.toNat ∧ c.val.toNat < 0x110000 := c.valid
  have same : Char.ofNat c.val.toNat = c := Char.ofNat_toNat c
  have byte (n : Nat) (small : n < 256) : (UInt8.ofNat n).toNat = n := by
    rw [UInt8.toNat_ofNat', Nat.mod_eq_of_lt small]
  unfold String.utf8EncodeChar
  simp only
  generalize c.val.toNat = code at range same ⊢
  split
  · have read : next (UInt8.ofNat code) rest = (c, rest) := by
      simp only [next, byte code (by omega)]
      rw [if_pos (by omega), same]
    simp only [List.cons_append, List.nil_append, decodeLossy_cons, read]
  split
  · have read : next (UInt8.ofNat (code / 64 % 32 + 192))
        (UInt8.ofNat (code % 64 + 128) :: rest) = (c, rest) := by
      simp only [next, isContinuation, continuationBits, byte (code / 64 % 32 + 192) (by omega),
        byte (code % 64 + 128) (by omega), Bool.and_eq_true, decide_eq_true_eq]
      rw [if_neg (by omega), if_pos (by omega), if_pos (by omega), ← same]
      congr 2
      omega
    simp only [List.cons_append, List.nil_append, decodeLossy_cons, read]
  split
  · have read : next (UInt8.ofNat (code / 4096 % 16 + 224))
        (UInt8.ofNat (code / 64 % 64 + 128) :: UInt8.ofNat (code % 64 + 128) :: rest) =
          (c, rest) := by
      simp only [next, isContinuation, isSecondOfThree, continuationBits,
        byte (code / 4096 % 16 + 224) (by omega), byte (code / 64 % 64 + 128) (by omega),
        byte (code % 64 + 128) (by omega), Bool.and_eq_true, decide_eq_true_eq]
      rw [if_neg (by omega), if_neg (by omega), if_pos (by omega),
        if_pos (by split <;> split <;> omega), if_pos (by omega), ← same]
      congr 2
      omega
    simp only [List.cons_append, List.nil_append, decodeLossy_cons, read]
  · have read : next (UInt8.ofNat (code / 262144 % 8 + 240))
        (UInt8.ofNat (code / 4096 % 64 + 128) :: UInt8.ofNat (code / 64 % 64 + 128) ::
          UInt8.ofNat (code % 64 + 128) :: rest) = (c, rest) := by
      simp only [next, isContinuation, isSecondOfFour, continuationBits,
        byte (code / 262144 % 8 + 240) (by omega), byte (code / 4096 % 64 + 128) (by omega),
        byte (code / 64 % 64 + 128) (by omega), byte (code % 64 + 128) (by omega),
        Bool.and_eq_true, decide_eq_true_eq]
      rw [if_neg (by omega), if_neg (by omega), if_neg (by omega), if_pos (by omega),
        if_pos (by split <;> split <;> omega), if_pos (by omega), if_pos (by omega), ← same]
      congr 2
      omega
    simp only [List.cons_append, List.nil_append, decodeLossy_cons, read]

/-- Text is read back from its bytes. -/
theorem decodeLossy_flatMap_utf8EncodeChar (cs : List Char) :
    decodeLossy (cs.flatMap String.utf8EncodeChar) = cs := by
  induction cs with
  | nil => rw [List.flatMap_nil, decodeLossy]
  | cons c cs ih =>
      rw [List.flatMap_cons, decodeLossy_utf8EncodeChar_append, ih]

end PagingKernel.Text.Utf8
