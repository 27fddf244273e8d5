import SafeMarkup.Charset.CodePage
import SafeMarkup.Charset.Transcode
import SafeMarkup.Proofs.Sending

/-!
# Transcoding

A text that goes through a buffer is encoded character by character. It does not matter how the
encoder cuts the text into blocks, nor how the text had been cut before (`texts_are_transcoded`).
All that is assumed of the encoder is in `ByteEncoder.Lawful`. The loop around such an encoder does
not cut any character, and it comes to an end (`ByteEncoder.Lawful.sends_transcode`).
-/

namespace SafeMarkup

theorem charBytes_ne_nil (byte? : Char → Option UInt8) (c : Char) : charBytes byte? c ≠ [] := by
  unfold charBytes
  split
  · exact List.cons_ne_nil _ _
  · exact fun h => List.cons_ne_nil _ _ (Text.utf8Bytes_eq_nil h)

namespace ByteEncoder

variable {bytesOf : Char → List UInt8} {encode : ByteEncoder}

/-! ### Positions between characters -/

/-- ASCII at the start of a text is the same in bytes. -/
theorem takeWhile_isAscii_byteView (text : Text) :
    text.byteView.takeWhile isAscii = text.takeWhile isAscii := by
  induction text with
  | nil => rfl
  | cons c text ih =>
    generalize hview : Text.byteView (c :: text) = view
    cases hview ▸ Text.lead (c :: text) with
    | ascii _ _ hc => rw [List.takeWhile_cons_of_pos hc, List.takeWhile_cons_of_pos hc, ih]
    | wide _ _ _ _ hc hd =>
      rw [List.takeWhile_cons_of_neg (by simp [hd]), List.takeWhile_cons_of_neg (by simp [hc])]

theorem cutAt?_asciiSize (text : Text) :
    text.cutAt? (asciiSize text) = some (text.takeWhile isAscii, text.dropWhile isAscii) := by
  have hsize : asciiSize text = Text.utf8Size (text.takeWhile isAscii) := by
    rw [asciiSize, takeWhile_isAscii_byteView,
      Text.utf8Size_of_isAscii (List.all_eq_true.mp List.all_takeWhile)]
  have hcut := Text.cutAt?_append (text.takeWhile isAscii) (text.dropWhile isAscii)
  rwa [← hsize, List.takeWhile_append_dropWhile] at hcut

/-! ### Encoders -/

/-- What an encoder does: it reads whole characters and writes their bytes into the buffer, it stops
before the end of the text only for want of room, and it reads something if the buffer is large. -/
structure Lawful (bytesOf : Char → List UInt8) (encode : ByteEncoder) : Prop where
  reads : ∀ room text, ∃ done left, text = done ++ left
    ∧ (encode room text).read = Text.utf8Size done
    ∧ (encode room text).bytes = done.flatMap bytesOf
    ∧ ((encode room text).full = false → left = [])
  fits : ∀ room text, (encode room text).bytes.length ≤ room
  progress : ∀ room text, largeRoom ≤ room → text ≠ [] → (encode room text).read ≠ 0

/-- What has been read can be cut off, and it is sent. -/
theorem Lawful.sends_block (hencode : encode.Lawful bytesOf) {room : Nat} {text : Text}
    {sink next : Sink} {failed : Option Text}
    (hsend : sink.sendBytes (if (encode room text).bytes.length ≤ room
      then (encode room text).bytes else []) = (next, failed)) :
    ∃ done left, text = done ++ left ∧ text.cutAt? (encode room text).read = some (done, left)
      ∧ (encode room text).read = Text.utf8Size done
      ∧ (encode room text).bytes = done.flatMap bytesOf
      ∧ ((encode room text).full = false → left = [])
      ∧ sink.Sends (done.flatMap bytesOf) next failed := by
  obtain ⟨done, left, hsplit, hread, hbytes, hfull⟩ := hencode.reads room text
  have hcut := Text.cutAt?_append done left
  have hsends := sink.sends_sendBytes (encode room text).bytes
  rw [if_pos (hencode.fits room text)] at hsend
  rw [hsend, hbytes] at hsends
  rw [← hsplit, ← hread] at hcut
  exact ⟨done, left, hsplit, hcut, hread, hbytes, hfull, hsends⟩

/-- So is the ASCII at the start of a text. -/
theorem sends_ascii (hascii : ∀ c, isAscii c = true → bytesOf c = String.utf8EncodeChar c)
    {text ascii rest : Text} (hcut : text.cutAt? (asciiSize text) = some (ascii, rest))
    {sink next : Sink} {failed : Option Text}
    (hsend : sink.sendBytes (Text.utf8Bytes ascii) = (next, failed)) :
    text = ascii ++ rest ∧ sink.Sends (ascii.flatMap bytesOf) next failed := by
  have hsame : Text.utf8Bytes ascii = ascii.flatMap bytesOf := by
    cases (cutAt?_asciiSize text).symm.trans hcut
    rw [Text.utf8Bytes, List.flatMap_def, List.flatMap_def]
    refine congrArg List.flatten (List.map_congr_left fun c hc => ?_)
    exact (hascii c (List.all_eq_true.mp List.all_takeWhile c hc)).symm
  have hsends := sink.sends_sendBytes (Text.utf8Bytes ascii)
  rw [hsend, hsame] at hsends
  exact ⟨(Text.eq_append_of_cutAt? hcut).1, hsends⟩

/-- **A text is transcoded** by a loop that comes to an end, and no cut falls inside a character.
The bytes are sent in blocks, up to the first call that fails. -/
theorem Lawful.sends_transcode (hencode : encode.Lawful bytesOf)
    (hascii : ∀ c, isAscii c = true → bytesOf c = String.utf8EncodeChar c)
    (hbytes : ∀ c, bytesOf c ≠ []) (sink : Sink) (room : Nat) (text : Text) :
    ∃ written, encode.transcode sink room text = some written
      ∧ sink.Sends (text.flatMap bytesOf) written.sink written.failed := by
  -- one case for each way in which a round can end, in the order of the definition
  fun_induction encode.transcode sink room text with
  | case1 sink room text hnocut =>
    rw [cutAt?_asciiSize] at hnocut
    cases hnocut
  | case2 sink room text ascii rest hcut next failed hsend =>
    obtain ⟨rfl, hfirst⟩ := sends_ascii hascii hcut hsend
    exact ⟨_, rfl, List.flatMap_append ▸ hfirst.append_of_failed⟩
  | case3 sink room text ascii rest hcut next hsend hnone =>
    obtain ⟨rfl, hfirst⟩ := sends_ascii hascii hcut hsend
    refine ⟨_, rfl, ?_⟩
    rwa [List.isEmpty_iff.mp hnone, List.append_nil]
  | case4 sink room text ascii rest hcut mid hsend hsome enough block next failed hsend' =>
    obtain ⟨rfl, hfirst⟩ := sends_ascii hascii hcut hsend
    obtain ⟨done, left, hsplit, -, -, -, -, hblock⟩ := hencode.sends_block hsend'
    refine ⟨_, rfl, ?_⟩
    rw [hsplit, List.flatMap_append, List.flatMap_append]
    exact hfirst.trans hblock.append_of_failed
  | case5 sink room text ascii rest hcut mid hsend hsome enough block next hsend' hall =>
    obtain ⟨rfl, hfirst⟩ := sends_ascii hascii hcut hsend
    obtain ⟨done, left, hsplit, hcut', -, -, -, hblock⟩ := hencode.sends_block hsend'
    refine ⟨_, rfl, ?_⟩
    rw [hsplit, (Text.utf8Size_le_iff_of_cutAt? hcut').mp hall, List.append_nil,
      List.flatMap_append]
    exact hfirst.trans hblock
  | case6 sink room text ascii rest hcut mid hsend hsome enough block next hsend' hmore hnocut =>
    obtain ⟨done, left, -, hcut', -⟩ := hencode.sends_block hsend'
    rw [hcut'] at hnocut
    cases hnocut
  | case7 sink room text ascii rest hcut mid hsend hsome enough block next hsend' hmore done left
      hleft hend =>
    -- the encoder is at the end of the text, but then there is nothing more
    obtain ⟨done', left', -, hcut', -, -, hlast, -⟩ := hencode.sends_block hsend'
    have hnone := hlast (by simpa using hend)
    exact absurd ((Text.utf8Size_le_iff_of_cutAt? hcut').mpr hnone) hmore
  | case8 sink room text ascii rest hcut mid hsend hsome enough block next hsend' hmore done left
      hleft hfull hroom ih =>
    -- once more, with a large buffer
    obtain ⟨rfl, hfirst⟩ := sends_ascii hascii hcut hsend
    obtain ⟨done', left', hsplit, hcut', -, -, -, hblock⟩ := hencode.sends_block hsend'
    cases hcut'.symm.trans hleft
    obtain ⟨written, hwritten, hrest⟩ := ih
    refine ⟨written, hwritten, ?_⟩
    rw [hsplit, List.flatMap_append, List.flatMap_append]
    exact hfirst.trans (hblock.trans hrest)
  | case9 sink room text ascii rest hcut mid hsend hsome enough block next hsend' hmore done left
      hleft hfull hroom hempty =>
    -- a character has been read, so its bytes have been written
    obtain ⟨done', left', -, -, hread, hwritten, -⟩ := hencode.sends_block hsend'
    have hprogress := hencode.progress enough rest (Nat.not_lt.mp hroom) (by simpa using hsome)
    have hnone : done'.flatMap bytesOf = [] := by
      rw [← hwritten]
      exact List.isEmpty_iff.mp hempty
    cases done' with
    | nil => exact absurd hread hprogress
    | cons c done' =>
      exact absurd (List.flatMap_eq_nil_iff.mp hnone c List.mem_cons_self) (hbytes c)
  | case10 sink room text ascii rest hcut mid hsend hsome enough block next hsend' hmore done left
      hleft hfull hroom hsent hread ih =>
    obtain ⟨rfl, hfirst⟩ := sends_ascii hascii hcut hsend
    obtain ⟨done', left', hsplit, hcut', -, -, -, hblock⟩ := hencode.sends_block hsend'
    cases hcut'.symm.trans hleft
    obtain ⟨written, hwritten, hrest⟩ := ih
    refine ⟨written, hwritten, ?_⟩
    rw [hsplit, List.flatMap_append, List.flatMap_append]
    exact hfirst.trans (hblock.trans hrest)
  | case11 sink room text ascii rest hcut mid hsend hsome enough block next hsend' hmore done left
      hleft hfull hroom hsent hread =>
    exact absurd (Nat.eq_zero_of_not_pos hread)
      (hencode.progress enough rest (Nat.not_lt.mp hroom) (by simpa using hsome))

/-- **Text after text is transcoded**, each with the buffer that the one before has left. -/
theorem Lawful.delivers_writeAll (hencode : encode.Lawful bytesOf)
    (hascii : ∀ c, isAscii c = true → bytesOf c = String.utf8EncodeChar c)
    (hbytes : ∀ c, bytesOf c ≠ []) {sink : Sink} (hsink : sink.IsReliable) (room : Nat)
    (texts : List Text) :
    ∃ written, encode.writeAll sink room texts = some written
      ∧ sink.Delivers (texts.flatten.flatMap bytesOf) written.sink written.failed := by
  induction texts generalizing sink room with
  | nil => exact ⟨_, rfl, Sink.delivers_nil hsink⟩
  | cons text texts ih =>
    rw [writeAll]
    by_cases hnone : text.isEmpty = true
    · rw [if_pos hnone, List.isEmpty_iff.mp hnone]
      exact ih hsink room
    · obtain ⟨⟨next, room', failed⟩, hwritten, hsends⟩ :=
        hencode.sends_transcode hascii hbytes sink room text
      have hfirst := hsends.delivers hsink
      obtain rfl : failed = none := hfirst.failed
      obtain ⟨written, hrest, hdelivers⟩ := ih hfirst.reliable room'
      rw [if_neg hnone, hwritten, List.flatten_cons, List.flatMap_append]
      exact ⟨written, hrest, hfirst.trans hdelivers⟩

end ByteEncoder

/-- **Texts are transcoded character by character.** An encoder for single bytes that agrees with
ASCII reads whole characters, as many as it likes, and writes their bytes, or references where they
have none. It stops before the end of a text only if it says that the buffer is full, and reads
something if that is large. Texts are written one after the other to a sink that takes every call.
The loop that does this comes to an end. It cuts no character and does not fail, so the encoder
always makes progress. What is sent are the bytes of all characters of all texts, in order. -/
theorem texts_are_transcoded (byte? : Char → Option UInt8)
    (hascii : ∀ c, isAscii c = true → byte? c = some (UInt8.ofNat c.toNat))
    (encode : ByteEncoder) (hencode : encode.Lawful (charBytes byte?))
    (sink : Sink) (hsink : sink.IsReliable) (room : Nat) (texts : List Text) :
    ∃ written, encode.writeAll sink room texts = some written
      ∧ written.failed = none
      ∧ written.sink.sent = sink.sent ++ texts.flatten.flatMap (charBytes byte?) := by
  have hsame : ∀ c, isAscii c = true → charBytes byte? c = String.utf8EncodeChar c := fun c hc => by
    rw [charBytes, hascii c hc, utf8EncodeChar_of_isAscii hc]
  obtain ⟨written, hwritten, hdelivers⟩ :=
    hencode.delivers_writeAll hsame (charBytes_ne_nil byte?) hsink room texts
  exact ⟨written, hwritten, hdelivers.failed, hdelivers.sent⟩

/-! ### Code pages -/

namespace CodePage

/-- In a code page ASCII characters have the same bytes as everywhere. -/
theorem charBytes_of_isAscii (page : CodePage) {c : Char} (hc : isAscii c = true) :
    charBytes page.byte? c = String.utf8EncodeChar c := by
  rw [utf8EncodeChar_of_isAscii hc, charBytes, byte?, if_pos hc]

/-- Every character fits into the buffer: a reference has no more than seven digits. -/
theorem length_charBytes (byte? : Char → Option UInt8) (c : Char) :
    (charBytes byte? c).length ≤ smallRoom := by
  unfold charBytes
  split
  · exact Nat.le_of_ble_eq_true rfl
  · -- four bytes at most for each character
    have hsize (t : Text) : (Text.utf8Bytes t).length ≤ 4 * t.length := by
      induction t with
      | nil => decide
      | cons d t ih =>
        have hchar : (String.utf8EncodeChar d).length ≤ 4 := by
          rw [String.length_utf8EncodeChar]
          exact Char.utf8Size_le_four d
        rw [Text.utf8Bytes, List.flatMap_cons, List.length_append, List.length_cons]
        have := ih
        rw [Text.utf8Bytes] at this
        omega
    -- seven digits for the largest code point
    have hdigits : (Text.ofNat c.toNat).length ≤ 7 := by
      have hc : c.toNat < 0x110000 := by
        rcases c.valid with h | ⟨-, h⟩
        · exact Nat.lt_trans h (by decide)
        · exact h
      rw [Text.ofNat, Nat.length_toDigits_le_iff (by decide) (by decide)]
      omega
    have hle := hsize ("&#".toList ++ Text.ofNat c.toNat ++ [';'])
    rw [List.length_append, List.length_append] at hle
    change _ ≤ 4 * (2 + _ + 1) at hle
    change _ ≤ 63
    omega

/-- **A code page does what is assumed of an encoder.** -/
theorem lawful_encode (page : CodePage) : page.encode.Lawful (charBytes page.byte?) where
  reads room text := by
    induction text generalizing room with
    | nil => exact ⟨[], [], rfl, rfl, rfl, fun _ => rfl⟩
    | cons c text ih =>
      rw [encode]
      dsimp only
      split
      · -- the character fits, so it is read and the rest after it
        obtain ⟨done, left, hsplit, hread, hbytes, hend⟩ := ih _
        refine ⟨c :: done, left, by rw [hsplit, List.cons_append], ?_, ?_, hend⟩
        · rw [hread, Text.utf8Size_cons]
        · rw [hbytes, List.flatMap_cons]
      · -- there is no room, so all of the text is left
        exact ⟨[], c :: text, rfl, rfl, rfl, fun h => by cases h⟩
  fits room text := by
    induction text generalizing room with
    | nil => exact Nat.zero_le _
    | cons c text ih =>
      rw [encode]
      dsimp only
      split
      · have := ih (room - (charBytes page.byte? c).length)
        rw [List.length_append]
        omega
      · exact Nat.zero_le _
  progress room text hroom htext := by
    cases text with
    | nil => exact absurd rfl htext
    | cons c text =>
      -- there is always room for one character
      have hfits : (charBytes page.byte? c).length ≤ room :=
        Nat.le_trans (length_charBytes page.byte? c) (Nat.le_trans (by decide) hroom)
      have hpos := c.utf8Size_pos
      rw [encode]
      dsimp only
      rw [if_pos hfits]
      dsimp only
      omega

end CodePage

/-- Three texts in a code page that has no snowman. -/
theorem snowman_is_transcoded :
    let page := CodePage.windows1252
    let sink : Sink := { failure? := fun _ _ => none }
    let texts := ["<b>\u00e9".toList, [], "\u2603".toList]
    let bytes := [60, 98, 62, 0xe9, 38, 35, 57, 55, 51, 49, 59]
    (∀ c, isAscii c = true → page.byte? c = some (UInt8.ofNat c.toNat))
      ∧ page.encode.Lawful (charBytes page.byte?)
      ∧ sink.IsReliable
      ∧ texts.flatten.flatMap (charBytes page.byte?) = bytes
      ∧ ∃ written, page.encode.writeAll sink smallRoom texts = some written
        ∧ written.failed = none ∧ written.sink.sent = bytes := by
  intro page sink texts bytes
  have hascii : ∀ c, isAscii c = true → page.byte? c = some (UInt8.ofNat c.toNat) :=
    fun _ hc => if_pos hc
  have hlawful : page.encode.Lawful (charBytes page.byte?) := page.lawful_encode
  have hsink : sink.IsReliable := fun _ _ => rfl
  have hbytes : texts.flatten.flatMap (charBytes page.byte?) = bytes := by decide +kernel
  obtain ⟨written, hwritten, hfailed, hsent⟩ :=
    texts_are_transcoded page.byte? hascii _ hlawful sink hsink smallRoom texts
  rw [hbytes] at hsent
  exact ⟨hascii, hlawful, hsink, hbytes, written, hwritten, hfailed, hsent⟩

end SafeMarkup
