import SafeMarkup.Context.Feed
import SafeMarkup.Js.WordBuffer

/-!
# Reading JS with a buffer for words

The same reading as that of `feed`, with the word before the cursor in a buffer. Reading a character
has no result if it takes the word beyond the end of its buffer.
-/

namespace SafeMarkup.Context

/-- The same context with another word before the cursor. -/
def withWord (ctx : Context) (word : Js.Word) : Context := { ctx with word }

/-- A context with a buffer for its word. What `context` says of the word is not looked at. -/
structure Buffered where
  context : Context
  buffer : Js.WordBuffer

namespace Buffered

/-- The context with the word that is in the buffer. -/
def unbuffered (b : Buffered) : Context := b.context.withWord b.buffer.word

/-- Reads a character of code. Letters of words go into the buffer, and any other character clears
it. -/
def feedJsCode? (b : Buffered) (c : Char) : Option Buffered :=
  if Js.isWordChar c then do
    let buffer ← b.buffer.push? c
    let slash := if ← buffer.precedesRegexp? then .regexp else .division
    return { context := { b.context with slash, lastChar := remembered c }, buffer }
  else some { context := b.context.feedJsCode c, buffer := b.buffer.clear }

/-- Reads the character after a `/`. -/
def feedJsSlash? (b : Buffered) (c : Char) : Option Buffered :=
  if c = '/' ∨ c = '*' ∨ b.context.slash = .regexp then
    some { b with context := b.context.feedJsSlash c }
  else
    let context := { b.context with state := .js .code, slash := .regexp, lastChar := '/' }
    feedJsCode? { b with context } c

def feed? (b : Buffered) (c : Char) : Option Buffered :=
  match b.context.state with
  | .js .code => b.feedJsCode? c
  | .js .slash => b.feedJsSlash? c
  | _ => some { b with context := b.context.feed c }

def feedAll? (b : Buffered) (t : Text) : Option Buffered := t.foldlM feed? b

end Buffered

end SafeMarkup.Context
