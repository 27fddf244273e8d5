import SafeMarkup.Text.Basic

/-!
# Escaping for JS strings and regular expressions

The escaped text contains no quote, no line terminator and no character that is special in HTML, so
it can end neither the literal it stands in nor the element or attribute around the code.
-/

namespace SafeMarkup.Js

/-- The characters with a fixed escape in strings. -/
def replacement? (c : Char) : Option Text :=
  match c with
  | '\x00' => some "\\x00".toList
  | '\t' => some "\\t".toList
  | '\n' => some "\\n".toList
  | '\r' => some "\\r".toList
  | '\x08' => some "\\b".toList
  | '\x0c' => some "\\f".toList
  | '\x0b' => some "\\x0b".toList
  | '"' => some "\\x22".toList
  | '\'' => some "\\x27".toList
  | '\x60' => some "\\x60".toList
  | '\\' => some "\\\\".toList
  | '/' => some "\\/".toList
  | '<' => some "\\x3c".toList
  | '>' => some "\\x3e".toList
  | '&' => some "\\x26".toList
  | '=' => some "\\x3d".toList
  | '$' => some "\\x24".toList
  | '\u2028' => some "\\u2028".toList
  | '\u2029' => some "\\u2029".toList
  | _ => none

/-- One character inside a string. Controls without an escape of their own are written by their
code points. -/
def escapeStringChar (c : Char) : Text :=
  match replacement? c with
  | some escaped => escaped
  | none => if isControl c then "\\u".toList ++ Text.ofNatHex4 c.toNat else [c]

/-- Escapes a text for the inside of a string or template literal. -/
def escapeString (t : Text) : Text := t.flatMap escapeStringChar

/-- The characters that have a meaning in regular expressions and none in strings. -/
def isRegexpSyntax (c : Char) : Bool :=
  c == '.' || c == '*' || c == '+' || c == '?' || c == '^' || c == '\x7b' || c == '\x7d' ||
    c == '(' || c == ')' || c == '[' || c == ']' || c == '|' || c == '-'

/-- One character inside a regular expression. -/
def escapeRegexpChar (c : Char) : Text :=
  if isRegexpSyntax c then ['\\', c] else escapeStringChar c

/-- Escapes a text for the inside of a regular expression, so that it matches itself. The empty
text becomes an empty group, because two slashes next to each other start a comment. -/
def escapeRegexp (t : Text) : Text :=
  if t.isEmpty then "(?:)".toList else t.flatMap escapeRegexpChar

/-- A text between single quotes, as a string literal. -/
def stringLiteral (t : Text) : Text := ['\''] ++ escapeString t ++ ['\'']

theorem escapeString_append (a b : Text) :
    escapeString (a ++ b) = escapeString a ++ escapeString b := by
  simp [escapeString]

example : escapeString "</a>\x01".toList = "\\x3c\\/a\\x3e\\u0001".toList := by decide

end SafeMarkup.Js
