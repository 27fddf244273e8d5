import SafeMarkup.Html.CharRef.Match
import SafeMarkup.Html.Escape

/-!
# Escaping byte by byte

What `escape` writes, found by looking at one byte of the text after the other. Bytes that stay as
they are get written in one piece, when the next replacement is due. Looking beyond the end, or
cutting the text inside a character, has no result.
-/

namespace SafeMarkup.Html.Bytes

/-- What is to be done with the bytes at a position. -/
inductive Found where
  /-- So many of them stay as they are. -/
  | kept (length : Nat)
  /-- The text takes the place of the first one. -/
  | replaced (text : Text)
  deriving DecidableEq, Repr

/-- Looks at the bytes from a position on. -/
def look (quoting : Quoting) (soft : Bool) (bytes : List UInt8) : Option Found := do
  let first ← (Text.ofBytes bytes)[0]?
  if first = '&' then
    if soft then
      match ← CharRef.matchBytes bytes true with
      | .complete length _ => return .kept length
      | .incomplete | .absent => return .replaced "&amp;".toList
    else return .replaced "&amp;".toList
  else
    match replacement? quoting first with
    | some text => return .replaced text
    | none => return .kept 1

/-- Escapes a text whose bytes before `position` have been looked at. Of these, the ones before
`flushed` have been written already. There is no result if no byte is to be kept, as the loop would
never come to an end. -/
def escapeFrom (quoting : Quoting) (soft : Bool) (input : Text) (flushed position : Nat) :
    Option Text :=
  if _ : position < input.utf8Size then do
    match ← look quoting soft (input.utf8Bytes.drop position) with
    | .kept length =>
      if _ : 0 < length then escapeFrom quoting soft input flushed (position + length) else none
    | .replaced text =>
      let run ← input.between? flushed position
      let rest ← escapeFrom quoting soft input (position + 1) (position + 1)
      return run ++ text ++ rest
  else input.between? flushed input.utf8Size
termination_by input.utf8Size - position

/-- Escapes a text. -/
def escape (quoting : Quoting) (soft : Bool) (input : Text) : Option Text :=
  escapeFrom quoting soft input 0 0

end SafeMarkup.Html.Bytes
