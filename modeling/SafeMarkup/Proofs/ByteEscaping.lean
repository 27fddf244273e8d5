import SafeMarkup.Html.Escape.Bytes
import SafeMarkup.Proofs.ByteReferences
import SafeMarkup.Proofs.KeptReferences

/-!
# Escaping byte by byte

Escaping a text by its bytes writes what escaping it by its characters does (`escape_eq`). All bytes
that are replaced are ASCII characters, so the loop passes all bytes of another character, and the
text is cut only before and after a replaced byte, where one character ends and another one starts.
-/

namespace SafeMarkup.Html.Bytes

open Text CharRef

variable {quoting : Quoting} {soft : Bool} {c : Char} {input a run rest z text : Text}
variable {flushed position : Nat}

/-! ### What is found -/

/-- Is there something else to write for the character? -/
def isReplaced (quoting : Quoting) (c : Char) : Bool := c == '&' || (replacement? quoting c).isSome

theorem isAscii_of_replacement? (h : replacement? quoting c = some text) : isAscii c = true := by
  have hall : (replacements.all fun r => isAscii r.1) = true := by decide
  exact List.all_eq_true.mp hall _ (mem_replacements h)

/-- No byte of a character outside of ASCII is taken for one that is replaced. -/
theorem asciiOnly_isReplaced (quoting : Quoting) : AsciiOnly (isReplaced quoting) := by
  apply (asciiOnly_eq (by decide)).or
  intro c hc
  obtain ⟨text, htext⟩ := Option.isSome_iff_exists.mp hc
  exact isAscii_of_replacement? htext

/-- A byte that is not replaced is kept. -/
theorem look_kept {b : UInt8} (hb : isReplaced quoting (Char.ofUInt8 b) = false)
    (more : List UInt8) : look quoting soft (b :: more) = some (.kept 1) := by
  have hfirst : (Text.ofBytes (b :: more))[0]? = some (Char.ofUInt8 b) := rfl
  rw [isReplaced, Bool.or_eq_false_iff, beq_eq_false_iff_ne, Option.isSome_eq_false_iff,
    Option.isNone_iff_eq_none] at hb
  rw [look, hfirst]
  simp only [Option.bind_eq_bind, Option.bind_some, if_neg hb.1, hb.2]
  rfl

/-- The byte of an ASCII character is that character. -/
theorem look_ascii (hc : isAscii c = true) (rest : Text) :
    (Text.ofBytes (utf8Bytes (c :: rest)))[0]? = some c := by
  show (byteView (c :: rest))[0]? = some c
  rw [byteView_cons_of_isAscii hc]
  rfl

/-- A character to be replaced is recognized by its byte. -/
theorem look_replaced (hamp : c ≠ '&') (hc : replacement? quoting c = some text) (rest : Text) :
    look quoting soft (utf8Bytes (c :: rest)) = some (.replaced text) := by
  rw [look, look_ascii (isAscii_of_replacement? hc)]
  simp only [Option.bind_eq_bind, Option.bind_some, if_neg hamp, hc]
  rfl

/-- A reference is kept as a whole in soft mode. -/
theorem look_reference {length : Nat} {char : Char}
    (h : scan true rest = .complete length char) :
    look quoting true (utf8Bytes ('&' :: rest)) = some (.kept length) := by
  rw [look, look_ascii (by decide), matchBytes_utf8Bytes, h]
  rfl

/-- Any other `&` is replaced. -/
theorem look_amp (h : (soft && startsRef rest) = false) :
    look quoting soft (utf8Bytes ('&' :: rest)) = some (.replaced "&amp;".toList) := by
  rw [look, look_ascii (by decide), matchBytes_utf8Bytes]
  cases soft with
  | false => rfl
  | true =>
    cases hscan : scan true rest with
    | complete length char => simp [startsRef, hscan] at h
    | incomplete => rfl
    | absent => rfl

/-! ### The loop -/

/-- What is kept makes the run longer. -/
theorem escapeFrom_kept {n : Nat} (hin : position < utf8Size input) (hn : 0 < n)
    (hlook : look quoting soft (input.utf8Bytes.drop position) = some (.kept n)) :
    escapeFrom quoting soft input flushed position
      = escapeFrom quoting soft input flushed (position + n) := by
  conv => lhs; rw [escapeFrom]
  rw [dif_pos hin, hlook]
  exact dif_pos hn

/-- What is replaced ends the run, which is written before it. -/
theorem escapeFrom_replaced (hin : position < utf8Size input)
    (hlook : look quoting soft (input.utf8Bytes.drop position) = some (.replaced text))
    (hrun : input.between? flushed position = some run)
    (hrest : escapeFrom quoting soft input (position + 1) (position + 1) = some rest) :
    escapeFrom quoting soft input flushed position = some (run ++ text ++ rest) := by
  rw [escapeFrom, dif_pos hin, hlook]
  simp only [Option.bind_eq_bind, Option.bind_some, hrun, hrest]
  rfl

theorem drop_utf8Bytes (a z : Text) : (utf8Bytes (a ++ z)).drop (utf8Size a) = utf8Bytes z := by
  rw [utf8Bytes, List.flatMap_append]
  exact List.drop_left

/-- **A character that is not replaced is passed**, one byte after the other. -/
theorem escapeFrom_plain (hc : isReplaced quoting c = false) (h : input = a ++ c :: rest) :
    escapeFrom quoting soft input flushed (utf8Size a)
      = escapeFrom quoting soft input flushed (utf8Size (a ++ [c])) := by
  have hbytes : utf8Bytes input = utf8Bytes a ++ String.utf8EncodeChar c ++ utf8Bytes rest := by
    rw [h, utf8Bytes, List.flatMap_append, List.flatMap_cons, List.append_assoc]
    rfl
  have hplain : ∀ b ∈ String.utf8EncodeChar c, isReplaced quoting (Char.ofUInt8 b) = false := by
    have hview := forall_byteView (t := [c]) (asciiOnly_isReplaced quoting) (by simpa using hc)
    rw [byteView, utf8Bytes, List.flatMap_singleton] at hview
    exact fun b hb => hview _ (List.mem_map_of_mem hb)
  have hsize : utf8Size (a ++ [c]) = utf8Size a + (String.utf8EncodeChar c).length := by
    rw [utf8Size_append, utf8Size_cons, String.length_utf8EncodeChar]
    rfl
  -- the bytes of the character that are left to be passed
  have hpass (done left : List UInt8) (hsplit : String.utf8EncodeChar c = done ++ left) :
      escapeFrom quoting soft input flushed (utf8Size a + done.length)
        = escapeFrom quoting soft input flushed (utf8Size (a ++ [c])) := by
    induction left generalizing done with
    | nil => rw [hsize, hsplit, List.append_nil]
    | cons b left ih =>
      have hdrop : (utf8Bytes input).drop (utf8Size a + done.length)
          = b :: (left ++ utf8Bytes rest) := by
        rw [hbytes, hsplit, ← List.append_assoc, List.append_assoc]
        exact List.drop_left' (by rw [List.length_append]; rfl)
      have hin : utf8Size a + done.length < utf8Size input := by
        have hlen := congrArg List.length hbytes
        rw [hsplit] at hlen
        simp only [List.length_append, List.length_cons] at hlen
        show (utf8Bytes a).length + done.length < (utf8Bytes input).length
        omega
      have hb : b ∈ String.utf8EncodeChar c := by simp [hsplit]
      have hlook : look quoting soft ((utf8Bytes input).drop (utf8Size a + done.length))
          = some (.kept 1) := hdrop ▸ look_kept (hplain b hb) _
      rw [escapeFrom_kept hin Nat.one_pos hlook]
      have hnext := ih (done ++ [b]) (by simp [hsplit])
      rwa [List.length_append] at hnext
  exact hpass [] _ rfl

/-- Where a reference starts, one is found. -/
theorem exists_scan_of_startsRef (h : startsRef rest = true) :
    ∃ length char, scan true rest = .complete length char := by
  cases hscan : scan true rest with
  | complete length char => exact ⟨length, char, rfl⟩
  | incomplete => simp [startsRef, hscan] at h
  | absent => simp [startsRef, hscan] at h

/-- **A reference that is kept is passed**, all of it at once. -/
theorem escapeFrom_reference {length : Nat} {char : Char}
    (hscan : scan true rest = .complete length char) (h : input = a ++ '&' :: rest) :
    escapeFrom quoting true input flushed (utf8Size a)
      = escapeFrom quoting true input flushed
          (utf8Size (a ++ '&' :: rest.take (length - 1))) := by
  obtain ⟨hpos, hle⟩ := scan_length hscan
  -- a reference is ASCII, so its length in characters is that in bytes
  have hascii : ∀ c ∈ '&' :: rest.take (length - 1), isAscii c = true := by
    rw [List.forall_mem_cons]
    exact ⟨by decide, fun c hc => isAscii_of_isRefChar (mem_of_scan hscan c hc)⟩
  have hsize : utf8Size ('&' :: rest.take (length - 1)) = length := by
    rw [utf8Size_of_isAscii hascii, List.length_cons, List.length_take]
    omega
  have hin : utf8Size a < utf8Size input := by
    have hne := utf8Size_pos (List.cons_ne_nil '&' rest)
    rw [h, utf8Size_append]
    omega
  have hlook : look quoting true (input.utf8Bytes.drop (utf8Size a)) = some (.kept length) := by
    rw [h, drop_utf8Bytes, look_reference hscan]
  rw [escapeFrom_kept hin hpos hlook, utf8Size_append, hsize]

/-- **A character that is replaced** is an ASCII character, and what has been passed before it is
written first. -/
theorem escapeFrom_ascii (hc : isAscii c = true) (h : input = a ++ (run ++ c :: z))
    (hlook : look quoting soft (utf8Bytes (c :: z)) = some (.replaced text))
    (hrest : escapeFrom quoting soft input (utf8Size (a ++ run ++ [c])) (utf8Size (a ++ run ++ [c]))
      = some rest) :
    escapeFrom quoting soft input (utf8Size a) (utf8Size (a ++ run))
      = some (run ++ text ++ rest) := by
  -- the loop goes on one byte further, and so does the position
  have hnext : utf8Size (a ++ run ++ [c]) = utf8Size (a ++ run) + 1 := by
    have hone : utf8Size [c] = 1 := utf8Size_of_isAscii (by simpa using hc)
    rw [utf8Size_append, hone]
  have hpos := utf8Size_pos (List.cons_ne_nil c z)
  have hin : utf8Size (a ++ run) < utf8Size input := by
    rw [h, ← List.append_assoc, utf8Size_append (a ++ run)]
    omega
  have hdrop : (utf8Bytes input).drop (utf8Size (a ++ run)) = utf8Bytes (c :: z) := by
    rw [h, ← List.append_assoc, drop_utf8Bytes]
  have hrun : input.between? (utf8Size a) (utf8Size (a ++ run)) = some run := by
    rw [h, between?_append]
  rw [hnext] at hrest
  exact escapeFrom_replaced hin (by rw [hdrop, hlook]) hrun hrest

/-- What has been passed and is not written yet stands before the escaped rest of the text. -/
theorem escapeFrom_eq (quoting : Quoting) (soft : Bool) (input a run z : Text)
    (h : input = a ++ (run ++ z)) :
    escapeFrom quoting soft input (utf8Size a) (utf8Size (a ++ run))
      = some (run ++ Html.escape quoting soft z) := by
  -- what is kept joins `run`; after a replacement everything so far is part of `a`
  induction hn : z.length using Nat.strong_induction_on generalizing a run z with
  | _ n ih =>
    rcases z with _ | ⟨c, z⟩
    · rw [List.append_nil] at h
      have hend := between?_append a run []
      rw [List.append_nil, ← h] at hend
      rw [← h, escapeFrom, dif_neg (Nat.lt_irrefl _), hend, escape_nil, List.append_nil]
    rw [List.length_cons] at hn
    have hpassed : input = (a ++ run) ++ c :: z := by rw [h, List.append_assoc]
    have hrest := ih z.length (by omega) (a ++ run ++ [c]) [] z
      (by rw [hpassed, List.append_cons, List.nil_append]) rfl
    rw [List.append_nil, List.nil_append] at hrest
    by_cases hamp : c = '&'
    · subst hamp
      cases hkept : soft && startsRef z with
      | true =>
        obtain ⟨rfl, hstarts⟩ := Bool.and_eq_true_iff.mp hkept
        obtain ⟨length, char, hscan⟩ := exists_scan_of_startsRef hstarts
        have hlen : (z.drop (length - 1)).length < n := by
          rw [List.length_drop]
          omega
        have hgrown := ih _ hlen a (run ++ '&' :: z.take (length - 1)) (z.drop (length - 1))
          (by rw [h, List.append_assoc, List.cons_append, List.take_append_drop]) rfl
        rw [← List.append_assoc] at hgrown
        rw [escapeFrom_reference hscan hpassed, hgrown, escape_amp_kept hscan,
          escape_reference hscan, List.append_assoc]
        rfl
      | false =>
        rw [escape_amp_replaced hkept, ← List.append_assoc]
        exact escapeFrom_ascii (by decide) h (look_amp hkept) hrest
    rw [escape_cons_of_ne hamp]
    cases hreplaced : replacement? quoting c with
    | some text =>
      have hchar : escapeChar quoting c = text := by rw [escapeChar, hreplaced]; rfl
      rw [hchar, ← List.append_assoc]
      exact escapeFrom_ascii (isAscii_of_replacement? hreplaced) h (look_replaced hamp hreplaced z)
        hrest
    | none =>
      have hchar : escapeChar quoting c = [c] := by rw [escapeChar, hreplaced]; rfl
      have hplain : isReplaced quoting c = false := by simp [isReplaced, hamp, hreplaced]
      have hgrown := ih z.length (by omega) a (run ++ [c]) z
        (by rw [h, List.append_assoc, List.singleton_append]) rfl
      rw [escapeFrom_plain hplain hpassed, hchar, List.append_assoc, hgrown, List.append_assoc]

/-- **Escaping by bytes is escaping.** -/
theorem escape_eq (quoting : Quoting) (soft : Bool) (input : Text) :
    escape quoting soft input = some (Html.escape quoting soft input) :=
  escapeFrom_eq quoting soft input [] [] input rfl

end SafeMarkup.Html.Bytes
