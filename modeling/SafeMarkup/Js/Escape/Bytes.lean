import SafeMarkup.Js.Escape
import SafeMarkup.Text.Bytes

/-!
# Escaping piece by piece

What `escapeString` and `escapeRegexp` write, put together from parts of the text between positions
that count bytes. Characters that stay as they are get written in one piece, when the next
replacement is due. Cutting the text inside a character has no result.
-/

namespace SafeMarkup.Js.Bytes

/-- What takes the place of a character, if it does not stay as it is. Controls without a
replacement of their own are written by their code points. -/
def replaced? (replacement : Char → Option Text) (c : Char) : Option Text :=
  match replacement c with
  | some escaped => some escaped
  | none => if isControl c then some ("\\u".toList ++ Text.ofNatHex4 c.toNat) else none

/-- Escapes a text of which only `rest`, which starts at `position`, has not been looked at. Of what
comes before it, the part before `flushed` has been written already. -/
def escapeFrom (replacement : Char → Option Text) (input : Text) (flushed position : Nat) :
    (rest : Text) → Option Text
  | [] => input.between? flushed input.utf8Size
  | c :: rest => do
    let next := position + c.utf8Size
    match replaced? replacement c with
    | some text =>
      let run ← input.between? flushed position
      let after ← escapeFrom replacement input next next rest
      return run ++ text ++ after
    | none => escapeFrom replacement input flushed next rest

/-- What replaces a character inside a regular expression. -/
def regexpReplacement? (c : Char) : Option Text :=
  if isRegexpSyntax c then some ['\\', c] else replacement? c

/-- Escapes a text for the inside of a string or template literal. -/
def escapeString (input : Text) : Option Text := escapeFrom replacement? input 0 0 input

/-- Escapes a text for the inside of a regular expression. -/
def escapeRegexp (input : Text) : Option Text :=
  if input.isEmpty then some "(?:)".toList else escapeFrom regexpReplacement? input 0 0 input

end SafeMarkup.Js.Bytes
