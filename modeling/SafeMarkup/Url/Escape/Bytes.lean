import SafeMarkup.Text.Bytes
import SafeMarkup.Url.Escape

/-!
# Encoding byte by byte

What the encoders of URLs write, found by looking at one byte of the text after the other. Bytes
that are kept get written in one piece, when the next encoded one is due. While the bytes of a
character are encoded the loop is inside of that character, where the text cannot be cut: a cut
there has no result.
-/

namespace SafeMarkup.Url.Bytes

/-- What has been kept between two positions, if anything has. -/
def keptBetween? (input : Text) (flushed position : Nat) : Option Text :=
  if flushed < position then input.between? flushed position else some []

section Loop

variable {σ : Type} (keep : σ → Char → Bool × σ)

/-- Encodes a text of which only the bytes `rest`, which start at `position`, have not been looked
at. Of what comes before them, the part before `flushed` has been written already. Whether a byte is
kept may depend on the bytes before it, of which a state is kept. -/
def encodeFrom (input : Text) (flushed position : Nat) (state : σ) :
    (rest : List UInt8) → Option Text
  | [] => (input.cutAt? flushed).map Prod.snd
  | b :: rest => do
    let (kept, next) := keep state (Char.ofUInt8 b)
    if kept then encodeFrom input flushed (position + 1) next rest
    else
      let run ← keptBetween? input flushed position
      let after ← encodeFrom input (position + 1) (position + 1) next rest
      return run ++ percent b ++ after

/-- Encodes a whole text. -/
def encode (state : σ) (input : Text) : Option Text :=
  encodeFrom keep input 0 0 state input.utf8Bytes

end Loop

/-- Keeps what means itself everywhere in a URL. -/
def keepUnreserved (_ : Unit) (b : Char) : Bool × Unit := (isUnreserved b, ())

/-- Keeps what may occur in a URL. As long as `inScheme`, a `:` would complete a scheme and is not
kept. -/
def keepNormal (inScheme : Bool) (b : Char) : Bool × Bool :=
  if endsSchemePart b then (true, false)
  else if b == ':' then (!inScheme, inScheme)
  else (isReserved b || isUnreserved b, inScheme)

def encodeComponent (t : Text) : Option Text := encode keepUnreserved () t

def normalize (url : Text) : Option Text := encode keepNormal false url

def normalizeInScheme (url : Text) : Option Text := encode keepNormal true url

/-- The position of the first character of a class. -/
def find? (t : Text) (p : Char → Bool) : Option Nat :=
  if t.any p then some (Text.utf8Size (t.takeWhile (!p ·))) else none

/-- The scheme of a URL, if it has one. -/
def scheme? (url : Text) : Option (Option Text) :=
  match find? url endsScheme with
  | none => some none
  | some stop => do
    let b ← url.byteView[stop]?
    if b == ':' then
      let (name, _) ← url.cutAt? stop
      return some name
    else return none

/-- Normalizes a URL, or replaces it if its scheme is not allowed. -/
def filter (allowed : List Scheme) (url : Text) : Option Text := do
  match ← scheme? url with
  | none => normalize url
  | some name =>
    match Scheme.ofName? name with
    | none => return placeholder
    | some scheme => if allowed.contains scheme then normalize url else return placeholder

end SafeMarkup.Url.Bytes
