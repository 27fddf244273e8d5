import SafeMarkup.Charset.Label
import SafeMarkup.Sink
import SafeMarkup.Text.Bytes

/-!
# Writing text in a character encoding

Text reaches the sink as bytes. In UTF-8 it is written in one go. In other encodings it goes through
a buffer of limited size: runs of ASCII are written as they are, and everything else is encoded
block by block, each block as much as fits into the buffer. The buffer is small at first, and is
replaced by a larger one for a long text or when it has not been enough.

An encoder tells how many bytes of a text it has read, and how many it has written to the buffer.
The text is cut by these numbers. A cut inside a character has no result, and neither has a loop
that goes on for ever.
-/

namespace SafeMarkup

/-! ### The buffer -/

/-- The size of the buffer as long as it has always been enough. -/
def smallRoom : Nat := 63

/-- The size of the buffer after it has not been enough. -/
def largeRoom : Nat := 1024

/-- The size of the buffer after it would have been used for a long text. -/
def hugeRoom : Nat := 4096

/-- The size from which on a text is long. -/
def longSize : Nat := 1024 * 1024

/-- The size of the buffer that a text is encoded into. A buffer that has been enlarged stays. -/
def roomFor (room : Nat) (text : Text) : Nat :=
  if room < largeRoom ∧ longSize ≤ text.utf8Size then hugeRoom else room

theorem le_roomFor (room : Nat) (text : Text) : room ≤ roomFor room text := by
  unfold roomFor
  split
  · next h => exact Nat.le_trans (Nat.le_of_lt h.1) (by decide)
  · exact Nat.le_refl room

/-- The result of writing a text. -/
structure Written where
  sink : Sink
  /-- The size of the buffer from now on. -/
  room : Nat
  /-- The reason, if the text could not be written in full. -/
  failed : Option Text

namespace ByteEncoder

/-- The number of bytes before the first that is not ASCII. -/
def asciiSize (text : Text) : Nat := (text.byteView.takeWhile isAscii).length

-- The linter does not see that these hypotheses are used to show termination.
set_option linter.unusedVariables false in
/-- Writes a text through a buffer. There is an end, since each round enlarges the buffer or cuts
something off the text. -/
def transcode (encode : ByteEncoder) (sink : Sink) (room : Nat) (text : Text) : Option Written :=
  match hrest : text.cutAt? (asciiSize text) with
  | none => none
  | some (ascii, rest) =>
    match sink.sendBytes (Text.utf8Bytes ascii) with
    | (sink, some failed) => some ⟨sink, room, some failed⟩
    | (sink, none) =>
      if rest.isEmpty then some ⟨sink, room, none⟩
      else
        let enough := roomFor room rest
        let block := encode enough rest
        match sink.sendBytes (if block.bytes.length ≤ enough then block.bytes else []) with
        | (sink, some failed) => some ⟨sink, enough, some failed⟩
        | (sink, none) =>
          if rest.utf8Size ≤ block.read then some ⟨sink, enough, none⟩
          else
            match hleft : rest.cutAt? block.read with
            | none => none
            | some (_, left) =>
              if !block.full then some ⟨sink, enough, none⟩
              else if hroom : enough < largeRoom then encode.transcode sink largeRoom left
              else if block.bytes.isEmpty then
                some ⟨sink, enough, some "the text encoder made no progress".toList⟩
              else if hread : 0 < block.read then encode.transcode sink enough left
              else none
  termination_by 2 * text.utf8Size + (if room < largeRoom then 1 else 0)
  decreasing_by
    all_goals
      have hsize : text.utf8Size = asciiSize text + rest.utf8Size :=
        Text.utf8Size_of_cutAt? hrest
      have hsize' : rest.utf8Size = block.read + left.utf8Size := Text.utf8Size_of_cutAt? hleft
    · have hsmall : room < largeRoom := Nat.lt_of_le_of_lt (le_roomFor room rest) hroom
      rw [if_pos hsmall, if_neg (Nat.lt_irrefl largeRoom)]
      omega
    · rw [if_neg hroom]
      omega

/-- Writes one text after the other, up to the first that fails. For an empty text there is nothing
to do. -/
def writeAll (encode : ByteEncoder) (sink : Sink) (room : Nat) : List Text → Option Written
  | [] => some ⟨sink, room, none⟩
  | text :: texts =>
    if text.isEmpty then encode.writeAll sink room texts
    else
      match encode.transcode sink room text with
      | some ⟨sink, room, none⟩ => encode.writeAll sink room texts
      | written => written

end ByteEncoder

/-! ### Output -/

/-- A sink with the encoding in which text is written to it. -/
structure Output where
  charset : Charset
  room : Nat := smallRoom
  sink : Sink

namespace Output

/-- Writes a text. Nothing is sent for the empty text. An encoder that cuts characters, or that goes
on for ever, counts as one that fails. -/
def write (output : Output) (text : Text) : Output × Option Text :=
  if text.isEmpty then (output, none)
  else
    match output.charset with
    | .utf8 =>
      let (sink, failed) := output.sink.send (.write (Text.utf8Bytes text))
      ({ output with sink }, failed)
    | .other _ encode =>
      match encode.transcode output.sink output.room text with
      | some written => ({ output with sink := written.sink, room := written.room }, written.failed)
      | none => (output, some "the text encoder does not work".toList)

/-- Makes a call that sends no text. -/
def send (output : Output) (call : SinkCall) : Output × Option Text :=
  let (sink, failed) := output.sink.send call
  ({ output with sink }, failed)

end Output

end SafeMarkup
