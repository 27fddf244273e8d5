import SafeMarkup.Js.Unescape

/-!
# Reading the patterns of JS

A pattern is read here outside of its classes, term by term. A character that is no part of the
syntax stands for itself, and so does most of what a backslash escapes. But a letter or a digit
after a backslash has a meaning of its own, and not always the one that it has in strings: `\b` is
the border of a word here, and no character.
-/

namespace SafeMarkup.Js.Pattern

inductive Term where
  /-- Matches one character. -/
  | literal (c : Char)
  /-- Matches half of a character, as code units do. -/
  | surrogate (code : Nat)
  /-- Matches where a word starts or ends, or where none does. -/
  | boundary (negated : Bool)
  /-- An escape with any other letter or digit: a class, a reference, or the start of one. -/
  | special (c : Char)
  /-- A part of the syntax, or the end of the pattern. -/
  | operator (c : Char)
  deriving DecidableEq, Repr

/-- Is `c` a part of the syntax of patterns, or does it end them? -/
def isSyntax (c : Char) : Bool := "^$\\.*+?()[]\x7b\x7d|/\n\r\u2028\u2029".toList.contains c

/-- What a character that is not escaped stands for. -/
def Term.ofChar (c : Char) : Term := if isSyntax c then .operator c else .literal c

/-- The controls that are written with a letter. -/
def control? : Char → Option Char
  | 'f' => some '\x0c'
  | 'n' => some '\n'
  | 'r' => some '\r'
  | 't' => some '\t'
  | 'v' => some '\x0b'
  | _ => none

/-- What an escaped character stands for. -/
def Term.ofEscaped (c : Char) : Term :=
  match control? c with
  | some control => .literal control
  | none =>
    if c == 'b' then .boundary false
    else if c == 'B' then .boundary true
    else if c.isAlphanum then .special c
    else .literal c

def Term.ofEscape : Escape → Term
  | .unit code => if code.isValidChar then .literal (Char.ofNat code) else .surrogate code
  | .char c => .ofEscaped c

/-- The terms of a pattern, in their order. -/
def terms (t : Text) : List Term := readWith (fun c => [.ofChar c]) (fun e => [.ofEscape e]) t

example : terms "\\x61\\.\\b".toList = [.literal 'a', .literal '.', .boundary false] := by
  decide +kernel

end SafeMarkup.Js.Pattern
