import SafeMarkup.Js.Token
import SafeMarkup.Text.Bytes

/-!
# The word before the cursor in a buffer

A word is kept in a buffer with room for the longest keyword. What earlier words have left in it
stays there: only the number of bytes in use tells what the word is. Storing a byte beyond the end
has no result, and neither has looking at more bytes than there are.
-/

namespace SafeMarkup.Js

/-- The bytes of a word, and how many of them are in use. One more than there is room for stands
for a word that is no keyword, whatever follows. -/
structure WordBuffer where
  bytes : Vector UInt8 keywordBound
  size : UInt8
  deriving DecidableEq, Repr

namespace WordBuffer

/-- What stands for a word that is no keyword. -/
def longSize : UInt8 := 11

/-- Stores a byte at a position. -/
def store? (bytes : Vector UInt8 keywordBound) (position : Nat) (byte : UInt8) :
    Option (Vector UInt8 keywordBound) :=
  if h : position < keywordBound then some (bytes.set position byte h) else none

/-- Adds a letter to the word. -/
def push? (buffer : WordBuffer) (c : Char) : Option WordBuffer :=
  if isAscii c && buffer.size.toNat < keywordBound then do
    let bytes ← store? buffer.bytes buffer.size.toNat (UInt8.ofNat c.toNat)
    return { bytes, size := buffer.size + 1 }
  else some { buffer with size := longSize }

def clear (buffer : WordBuffer) : WordBuffer := { buffer with size := 0 }

/-- All that is in the buffer, whether it is in use or not. -/
def letters (buffer : WordBuffer) : Text := Text.ofBytes buffer.bytes.toList

/-- Is the word one that an operand follows? -/
def precedesRegexp? (buffer : WordBuffer) : Option Bool :=
  if buffer.size.toNat ≤ keywordBound then do
    let word ← buffer.letters.slice? 0 buffer.size.toNat
    return keywords.contains word
  else some false

/-- The word that is in the buffer. -/
def word (buffer : WordBuffer) : Word :=
  if buffer.size.toNat ≤ keywordBound then .short (buffer.letters.take buffer.size.toNat)
  else .long

@[simp] theorem length_letters (buffer : WordBuffer) : buffer.letters.length = keywordBound := by
  rw [letters, Text.length_ofBytes, Vector.length_toList]

theorem word_of_size {buffer : WordBuffer} (h : buffer.size = 0) : buffer.word = .empty := by
  simp [word, h, Word.empty]

end WordBuffer

end SafeMarkup.Js
