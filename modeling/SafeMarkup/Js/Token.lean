import SafeMarkup.Text.Alphanumeric

/-!
# Places in JS code, and the word before the cursor

A `/` in JS code starts a regular expression or is a division, depending on what precedes it. Most
words are operands, which a division follows, but after some keywords an operand is still to
come. No keyword is longer than ten letters, so longer words need not be remembered.
-/

namespace SafeMarkup.Js

inductive Mode where
  /-- Between tokens, or inside a word or operator. -/
  | code
  /-- After a `/`, which may start a comment, a regular expression or a division. -/
  | slash
  | doubleQuoted
  | singleQuoted
  | template
  | regexp
  | blockComment
  | lineComment
  deriving DecidableEq, Repr

/-- What a `/` at this point of the code is. -/
inductive Slash where
  | regexp
  | division
  deriving DecidableEq, Repr

/-- The whitespace of JS, line terminators included. -/
def isSpace (c : Char) : Bool :=
  c == ' ' || c == '\t' || c == '\n' || c == '\r' || c == '\x0b' || c == '\x0c' ||
    c == '\u00a0' || c == '\u2028' || c == '\u2029' || c == '\ufeff'

/-- The characters that end a line of JS code. -/
def isLineEnd (c : Char) : Bool :=
  c == '\n' || c == '\r' || c == '\u2028' || c == '\u2029'

/-- May `c` be part of a word? -/
def isWordChar (c : Char) : Bool := c == '$' || c == '_' || isAlphanumeric c

theorem isWordChar_of_isSpace {c : Char} (hc : isSpace c = true) : isWordChar c = false := by
  simp only [isSpace, Bool.or_eq_true, beq_iff_eq] at hc
  rcases hc with ((((((((rfl | rfl) | rfl) | rfl) | rfl) | rfl) | rfl) | rfl) | rfl) | rfl
  all_goals decide +kernel

theorem isWordChar_of_isLineEnd {c : Char} (hc : isLineEnd c = true) : isWordChar c = false := by
  simp only [isLineEnd, Bool.or_eq_true, beq_iff_eq] at hc
  rcases hc with ((rfl | rfl) | rfl) | rfl
  all_goals decide +kernel

/-- The punctuation that an operand follows. `+` and `-` are not among them, because doubled they
come after an operand, and neither is `)`, which closes one. -/
def isOperator (c : Char) : Bool :=
  c == '.' || c == ',' || c == '<' || c == '>' || c == '=' || c == '*' || c == '%' || c == '&' ||
    c == '|' || c == '^' || c == '?' || c == '!' || c == '~' || c == '(' || c == '[' ||
    c == ':' || c == ';' || c == '\x7b' || c == '\x7d'

theorem isWordChar_of_isOperator {c : Char} (hc : isOperator c = true) : isWordChar c = false := by
  have hall : ".,<>=*%&|^?!~([:;\x7b\x7d".toList.all (! isWordChar ·) = true := by decide
  simpa using List.all_eq_true.mp hall c (by simpa [isOperator, or_assoc] using hc)

/-- The longest word that can be a keyword has this many letters. -/
def keywordBound : Nat := 10

/-- The keywords that an operand follows, so that a `/` after them starts a regular expression. -/
def keywords : List Text :=
  ["await".toList, "break".toList, "case".toList, "continue".toList, "delete".toList,
    "do".toList, "else".toList, "finally".toList, "in".toList, "instanceof".toList,
    "return".toList, "throw".toList, "try".toList, "typeof".toList, "void".toList,
    "yield".toList]

/-- The word that code ends with, as long as it can be a keyword. -/
inductive Word where
  /-- At most ten letters, all of them ASCII. -/
  | short (letters : Text)
  /-- A word that is no keyword, whatever follows. -/
  | long
  deriving DecidableEq, Repr

namespace Word

def empty : Word := .short []

/-- The word with one more letter. -/
def push (word : Word) (c : Char) : Word :=
  match word with
  | .short letters =>
    if isAscii c && letters.length < keywordBound then .short (letters ++ [c]) else .long
  | .long => .long

/-- Is the word one that an operand follows? -/
def precedesRegexp : Word → Bool
  | .short letters => keywords.contains letters
  | .long => false

/-- A word never has more than ten letters. -/
def IsBounded : Word → Prop
  | .short letters => letters.length ≤ keywordBound
  | .long => True

/-- A letter is added only while there is room for it. -/
theorem isBounded_push (word : Word) (c : Char) : (word.push c).IsBounded := by
  cases word with
  | long => trivial
  | short letters =>
    simp only [push]
    split
    · next h =>
      have hlt : letters.length < keywordBound := of_decide_eq_true (Bool.and_eq_true_iff.mp h).2
      rw [IsBounded, List.length_append, List.length_singleton]
      exact hlt
    · trivial

end Word

end SafeMarkup.Js
