import SafeMarkup.Proofs.Transcoding

/-!
# What arrives at the sink

The buffer through which text is encoded, and the calls in which it is sent, leave no trace in the
bytes. A text is sent in blocks, up to the first call that fails, and the blocks together are the
text encoded character by character (`sends_write`). For encodings other than UTF-8 this rests on
what the encoder does (`Charset.Encodes`).
-/

namespace SafeMarkup

/-- The encoding encodes each character as `bytesOf` says. This is what is assumed of an encoder
that comes with an encoding: it is lawful, the bytes of ASCII characters are those of ASCII, and
every character has bytes. -/
inductive Charset.Encodes : Charset → (Char → List UInt8) → Prop where
  | utf8 : Encodes .utf8 String.utf8EncodeChar
  | other (name : String) {encode : ByteEncoder} {bytesOf : Char → List UInt8}
      (lawful : encode.Lawful bytesOf)
      (ascii : ∀ c, isAscii c = true → bytesOf c = String.utf8EncodeChar c)
      (nonempty : ∀ c, bytesOf c ≠ []) : Encodes (.other name encode) bytesOf

/-- A code page encodes a character as its byte, or as a reference. -/
theorem CodePage.encodes (page : CodePage) :
    Charset.Encodes (.other page.name page.encode) (charBytes page.byte?) :=
  .other page.name page.lawful_encode (fun _ hc => page.charBytes_of_isAscii hc)
    (charBytes_ne_nil page.byte?)

namespace Output

variable {output : Output} {bytesOf : Char → List UInt8}

theorem charset_write (output : Output) (t : Text) :
    (output.write t).1.charset = output.charset := by
  unfold write
  split
  · rfl
  · split
    · rfl
    · split <;> rfl

/-- **How a text is sent.** Its bytes go out in blocks, up to the first call that fails. -/
theorem sends_write (hcharset : output.charset.Encodes bytesOf) (t : Text) :
    output.sink.Sends (t.flatMap bytesOf) (output.write t).1.sink (output.write t).2 := by
  obtain ⟨charset, room, sink⟩ := output
  unfold write
  split
  · next hnone =>
    rw [List.isEmpty_iff.mp hnone]
    exact sink.sends_nil
  next hsome =>
  cases hcharset with
  | utf8 =>
    -- a text has no empty block of bytes, which would not be sent
    have hbytes : Text.utf8Bytes t ≠ [] := fun h => hsome (by simpa using Text.utf8Bytes_eq_nil h)
    have hsends := sink.sends_sendBytes (Text.utf8Bytes t)
    rw [Sink.sendBytes, if_neg (by simpa using hbytes)] at hsends
    exact hsends
  | other name lawful ascii nonempty =>
    obtain ⟨written, hwritten, hsends⟩ := lawful.sends_transcode ascii nonempty sink room t
    dsimp only
    rw [hwritten]
    exact hsends

/-- **All of a text arrives**, encoded character by character, unless a call fails. -/
theorem sent_write (hcharset : output.charset.Encodes bytesOf) {t : Text}
    (hok : (output.write t).2 = none) :
    (output.write t).1.sink.sent = output.sink.sent ++ t.flatMap bytesOf := by
  have hsends := output.sends_write hcharset t
  rw [hok] at hsends
  exact hsends.sent

/-- With a reliable sink no call fails. -/
theorem delivers_write (hcharset : output.charset.Encodes bytesOf) (h : output.sink.IsReliable)
    (t : Text) :
    output.sink.Delivers (t.flatMap bytesOf) (output.write t).1.sink (output.write t).2 :=
  (output.sends_write hcharset t).delivers h

/-- As UTF-8 a text is sent in one call. -/
theorem sendAll_write (h : output.charset = .utf8) (t : Text) :
    output.sink.sendAll (SinkCall.writes [Text.utf8Bytes t])
      = ((output.write t).1.sink, (output.write t).2) := by
  rw [SinkCall.writes, List.flatMap_singleton, write, h]
  split
  · next hnone =>
    have ht : t = [] := Text.utf8Bytes_eq_nil (List.isEmpty_iff.mp hnone)
    rw [ht]
    rfl
  · next hsome =>
    have ht : t.isEmpty ≠ true := fun hnone => hsome (by rw [List.isEmpty_iff.mp hnone]; rfl)
    rw [if_neg ht, Sink.sendAll_singleton]

/-- As UTF-8 a text is sent as a whole, whether the sink takes it or not. -/
theorem sent_write_utf8 (h : output.charset = .utf8) (t : Text) :
    (output.write t).1.sink.sent = output.sink.sent ++ Text.utf8Bytes t := by
  unfold write
  split
  · next hnone =>
    rw [List.isEmpty_iff.mp hnone]
    exact (List.append_nil _).symm
  · rw [h]
    exact output.sink.sent_send (.write (Text.utf8Bytes t))

end Output

end SafeMarkup
