import SafeMarkup.Text.Basic

/-!
# Text encoders

An encoder turns text into the bytes of a character encoding, block by block, each block as much as
fits into a buffer. Encoders are not part of this library: an output is given one together with its
encoding, and any function of the shape of `ByteEncoder` will do. What an encoder has to do is said
where it matters (`ByteEncoder.Lawful`).
-/

namespace SafeMarkup

/-- What has become of a text and of a buffer. Sizes are in bytes. -/
structure Encoded where
  /-- How much of the text has been read. -/
  read : Nat
  /-- What has been written, at the start of the buffer. -/
  bytes : List UInt8
  /-- Did the encoder stop because there was no room for more? -/
  full : Bool
  deriving DecidableEq, Repr

/-- Encodes the start of a text into a buffer of the given size. It keeps no state from one call to
the next. -/
abbrev ByteEncoder := (room : Nat) → (text : Text) → Encoded

/-- The bytes of a character in an encoding with one byte per character, or of a reference to a
character that has none. `byte?` is the byte of a character, if it has one. -/
def charBytes (byte? : Char → Option UInt8) (c : Char) : List UInt8 :=
  match byte? c with
  | some byte => [byte]
  | none => Text.utf8Bytes ("&#".toList ++ Text.ofNat c.toNat ++ [';'])

end SafeMarkup
