import SafeMarkup.Html.CharRef

/-!
# Reading escapes of JS

In strings and in patterns a backslash gives the characters after it another meaning. `\x` with two
hexadecimal digits and `\u` with four of them are a code unit by its number. Otherwise the meaning
is that of the one character after the backslash, and depends on where it stands.

The value of a string is made up of code units of 16 bits. A character beyond U+FFFF consists of two
of them, a pair of surrogates.
-/

namespace SafeMarkup.Js

/-- What stands after a backslash. -/
inductive Escape where
  /-- A code unit by its number. -/
  | unit (code : Nat)
  | char (c : Char)
  deriving DecidableEq, Repr

/-- The number of digits that a letter after a backslash calls for. -/
def hexLength? : Char → Option Nat
  | 'x' => some 2
  | 'u' => some 4
  | _ => none

/-- The number that the first `n` characters are, if all of them are hexadecimal digits. -/
def hexNumber? (n : Nat) (t : Text) : Option Nat :=
  if n ≤ t.length ∧ (t.take n).all isHexDigit then some (Html.CharRef.value 16 (t.take n)) else none

/-- Reads what follows a backslash, and what is left after it. -/
def readEscape (c : Char) (rest : Text) : Escape × Text :=
  match hexLength? c with
  | none => (.char c, rest)
  | some n =>
    match hexNumber? n rest with
    | none => (.char c, rest)
    | some code => (.unit code, rest.drop n)

theorem length_readEscape (c : Char) (rest : Text) :
    (readEscape c rest).2.length ≤ rest.length := by
  unfold readEscape
  split
  · exact Nat.le_refl _
  · split
    · exact Nat.le_refl _
    · rw [List.length_drop]
      exact Nat.sub_le _ _

/-- Reads a text in which a backslash starts an escape. A backslash at the end stands for itself. -/
def readWith {β : Type} (char : Char → List β) (escape : Escape → List β) : Text → List β
  | [] => []
  | ['\\'] => char '\\'
  | '\\' :: c :: rest =>
    escape (readEscape c rest).1 ++ readWith char escape (readEscape c rest).2
  | c :: rest => char c ++ readWith char escape rest
termination_by t => t.length
decreasing_by
  · have hle := length_readEscape c rest
    simp only [List.length_cons]
    omega
  · simp

section Reading

variable {β : Type} (char : Char → List β) (escape : Escape → List β) {c : Char}

theorem readWith_nil : readWith char escape [] = [] := by rw [readWith]

theorem readWith_cons (hc : c ≠ '\\') (t : Text) :
    readWith char escape (c :: t) = char c ++ readWith char escape t := by
  rw [readWith]
  · intro e _
    exact hc e
  · intro _ _ e _
    exact hc e

theorem readWith_backslash (c : Char) (t : Text) :
    readWith char escape ('\\' :: c :: t)
      = escape (readEscape c t).1 ++ readWith char escape (readEscape c t).2 := by
  rw [readWith]

/-- An escape that is one character. -/
theorem readWith_char (hc : hexLength? c = none) (t : Text) :
    readWith char escape ('\\' :: c :: t) = escape (.char c) ++ readWith char escape t := by
  rw [readWith_backslash, readEscape, hc]

/-- The digits of a number are read whatever follows them. -/
theorem hexNumber?_append {digits : Text} (h : digits.all isHexDigit = true) (t : Text) :
    hexNumber? digits.length (digits ++ t) = some (Html.CharRef.value 16 digits) := by
  rw [hexNumber?, List.take_left, if_pos ⟨by simp, h⟩]

/-- An escape that is a number. -/
theorem readWith_number {digits : Text} (hc : hexLength? c = some digits.length)
    (h : digits.all isHexDigit = true) (t : Text) :
    readWith char escape ('\\' :: c :: (digits ++ t))
      = escape (.unit (Html.CharRef.value 16 digits)) ++ readWith char escape t := by
  have hread : readEscape c (digits ++ t) = (.unit (Html.CharRef.value 16 digits), t) := by
    rw [readEscape, hc]
    simp only [hexNumber?_append h, List.drop_left]
  rw [readWith_backslash, hread]

end Reading

/-! ### Code units -/

/-- The code units of a character. -/
def units (c : Char) : List Nat :=
  if c.toNat < 0x10000 then [c.toNat]
  else [0xd800 + (c.toNat - 0x10000) / 0x400, 0xdc00 + (c.toNat - 0x10000) % 0x400]

/-- The character that a pair of surrogates stands for. -/
def ofPair? (high low : Nat) : Option Char :=
  if 0xd800 ≤ high ∧ high < 0xdc00 ∧ 0xdc00 ≤ low ∧ low < 0xe000 then
    some (Char.ofNat (0x10000 + (high - 0xd800) * 0x400 + (low - 0xdc00)))
  else none

/-- The character with this code unit. A surrogate without a partner is read as U+FFFD. -/
def ofUnit (unit : Nat) : Char := if unit.isValidChar then Char.ofNat unit else '\ufffd'

/-- The text with these code units. -/
def ofUnits : List Nat → Text
  | [] => []
  | [unit] => [ofUnit unit]
  | high :: low :: rest =>
    match ofPair? high low with
    | some c => c :: ofUnits rest
    | none => ofUnit high :: ofUnits (low :: rest)

/-! ### Strings -/

/-- The character that a letter after a backslash stands for in a string. -/
def letterValue : Char → Char
  | 'b' => '\x08'
  | 'f' => '\x0c'
  | 'n' => '\n'
  | 'r' => '\r'
  | 't' => '\t'
  | 'v' => '\x0b'
  | c => c

/-- The code units of an escape in a string. -/
def Escape.units : Escape → List Nat
  | .unit code => [code]
  | .char c => Js.units (letterValue c)

/-- The value of the text between the quotes of a string. -/
def unescape (t : Text) : Text := ofUnits (readWith units Escape.units t)

example : unescape "it\\x27s \\ud83d\\ude00\\n\\q".toList = "it's 😀\nq".toList := by
  decide +kernel

end SafeMarkup.Js
