import SafeMarkup.Proofs.ByteView
import SafeMarkup.Url.Escape.Bytes

/-!
# Encoding byte by byte

The loop that encodes a URL looks at bytes and cuts the text at byte positions. All bytes of a
character beyond ASCII are encoded, so between them nothing has been kept and nothing is cut
(`encodeFrom_bytes`). Where the loop does cut it stands between two characters, and together the
pieces are what encoding the characters one by one writes (`encode_eq`).
-/

namespace SafeMarkup.Url.Bytes

open Text

variable {σ : Type} {keep : σ → Char → Bool × σ} {s next : σ} {c : Char} {b : UInt8}
  {input a run z after : Text} {bytes rest : List UInt8}

/-- What is beyond ASCII is encoded, and does not matter for what comes after it. -/
def AsciiKept (keep : σ → Char → Bool × σ) : Prop :=
  ∀ s c, isAscii c = false → keep s c = (false, s)

/-- What is written for a text, character by character. -/
def encoded (keep : σ → Char → Bool × σ) (s : σ) : Text → Text
  | [] => []
  | c :: t =>
    (if (keep s c).1 then [c] else percentChar c) ++ encoded keep (keep s c).2 t

/-! ### One character -/

theorem keptBetween?_append (a run z : Text) :
    keptBetween? (a ++ (run ++ z)) (utf8Size a) (utf8Size (a ++ run)) = some run := by
  unfold keptBetween?
  split
  · exact between?_append a run z
  · -- between a position and itself there is nothing
    next hempty =>
    have hsize := utf8Size_append a run
    have hnil : run = [] := by
      by_contra hne
      have hpos := utf8Size_pos hne
      omega
    rw [hnil]

theorem encodeFrom_kept (hb : keep s (Char.ofUInt8 b) = (true, next)) (flushed position : Nat) :
    encodeFrom keep input flushed position s (b :: rest)
      = encodeFrom keep input flushed (position + 1) next rest := by
  rw [encodeFrom, hb]
  rfl

/-- A byte that is encoded: what has been kept before it is written first. -/
theorem encodeFrom_byte (h : input = a ++ (run ++ z)) (hb : keep s (Char.ofUInt8 b) = (false, next))
    (hafter : encodeFrom keep input (utf8Size (a ++ run) + 1) (utf8Size (a ++ run) + 1) next rest
      = some after) :
    encodeFrom keep input (utf8Size a) (utf8Size (a ++ run)) s (b :: rest)
      = some (run ++ percent b ++ after) := by
  have hrun := keptBetween?_append a run z
  rw [← h] at hrun
  rw [encodeFrom, hb]
  simp only [Bool.false_eq_true, ↓reduceIte, hrun, hafter]
  rfl

/-- Within a character nothing is cut. -/
theorem encodeFrom_bytes (hbytes : ∀ b ∈ bytes, keep s (Char.ofUInt8 b) = (false, s))
    (position : Nat) (hafter : encodeFrom keep input (position + bytes.length)
      (position + bytes.length) s rest = some after) :
    encodeFrom keep input position position s (bytes ++ rest)
      = some (bytes.flatMap percent ++ after) := by
  -- on the bytes: each is encoded, and the next run starts after it
  induction bytes generalizing position with
  | nil => exact hafter
  | cons b bytes ih =>
    obtain ⟨hb, hrest⟩ := List.forall_mem_cons.mp hbytes
    have hlater := ih hrest (position + 1) (by
      rw [List.length_cons] at hafter
      rw [Nat.add_assoc, Nat.add_comm 1]
      exact hafter)
    rw [List.cons_append, encodeFrom, hb]
    simp only [Bool.false_eq_true, ↓reduceIte, keptBetween?, Nat.lt_irrefl, hlater]
    rfl

/-- A character that is encoded, by its first byte and then the others. -/
theorem encodeFrom_char (h : input = a ++ (run ++ c :: z))
    (hc : String.utf8EncodeChar c = b :: bytes)
    (hb : keep s (Char.ofUInt8 b) = (false, next))
    (hbytes : ∀ b ∈ bytes, keep next (Char.ofUInt8 b) = (false, next))
    (hafter : encodeFrom keep input (utf8Size (a ++ run ++ [c])) (utf8Size (a ++ run ++ [c])) next
      (utf8Bytes z) = some after) :
    encodeFrom keep input (utf8Size a) (utf8Size (a ++ run)) s (utf8Bytes (c :: z))
      = some (run ++ percentChar c ++ after) := by
  -- the first byte is that at the position, the others come after it
  have hsize : utf8Size (a ++ run ++ [c]) = utf8Size (a ++ run) + 1 + bytes.length := by
    have hlen := congrArg List.length hc
    rw [String.length_utf8EncodeChar, List.length_cons] at hlen
    rw [utf8Size_append, utf8Size_cons, utf8Size_nil]
    omega
  have hsplit : utf8Bytes (c :: z) = b :: (bytes ++ utf8Bytes z) := by
    rw [utf8Bytes, List.flatMap_cons, hc]
    rfl
  rw [hsize] at hafter
  rw [hsplit, encodeFrom_byte h hb (encodeFrom_bytes hbytes _ hafter), percentChar, hc,
    List.flatMap_cons, List.append_assoc, List.append_assoc, List.append_assoc]

/-! ### Whole texts -/

/-- What has been passed and is not written yet stands before what is written for the rest. -/
theorem encodeFrom_eq (hkeep : AsciiKept keep) (input a run z : Text) (h : input = a ++ (run ++ z))
    (s : σ) :
    encodeFrom keep input (utf8Size a) (utf8Size (a ++ run)) s (utf8Bytes z)
      = some (run ++ encoded keep s z) := by
  -- what is kept joins `run`; after an encoded character everything so far is part of `a`
  induction z generalizing a run s with
  | nil =>
    rw [List.append_nil] at h
    show (input.cutAt? (utf8Size a)).map Prod.snd = some (run ++ [])
    rw [h, cutAt?_append, List.append_nil]
    rfl
  | cons c z ih =>
    have hnext (s : σ) := ih (a ++ run ++ [c]) [] (by simp [h]) s
    simp only [List.append_nil, List.nil_append] at hnext
    rw [encoded]
    by_cases hascii : isAscii c = true
    · have hbyte : String.utf8EncodeChar c = [UInt8.ofNat c.toNat] :=
        utf8EncodeChar_of_isAscii hascii
      have hself : Char.ofUInt8 (UInt8.ofNat c.toNat) = c := ofUInt8_of_isAscii hascii
      cases hc : keep s c with
      | mk kept next =>
        cases kept with
        | true =>
          have hkept := ih a (run ++ [c]) (by simp [h]) next
          have hsize : utf8Size (a ++ (run ++ [c])) = utf8Size (a ++ run) + 1 := by
            have hone := String.length_utf8EncodeChar c
            rw [hbyte, List.length_singleton] at hone
            rw [← List.append_assoc, utf8Size_append, utf8Size_cons, utf8Size_nil, ← hone]
          have hsplit : utf8Bytes (c :: z) = UInt8.ofNat c.toNat :: utf8Bytes z := by
            rw [utf8Bytes, List.flatMap_cons, hbyte]
            rfl
          rw [hsize] at hkept
          rw [hsplit, encodeFrom_kept (by rw [hself, hc]), hkept]
          simp
        | false =>
          rw [encodeFrom_char h hbyte (by rw [hself, hc]) (by simp) (hnext next), List.append_assoc]
          rfl
    · rw [Bool.not_eq_true] at hascii
      have hall : ∀ b ∈ String.utf8EncodeChar c, isAscii (Char.ofUInt8 b) = false := by
        intro b hb
        refine isAscii_of_mem_byteView_singleton hascii _ (List.mem_map_of_mem ?_)
        rwa [utf8Bytes, List.flatMap_singleton]
      cases hbytes : String.utf8EncodeChar c with
      | nil =>
        have hlen := congrArg List.length hbytes
        rw [String.length_utf8EncodeChar] at hlen
        exact absurd hlen (Nat.ne_of_gt c.utf8Size_pos)
      | cons b bytes =>
        rw [hbytes, List.forall_mem_cons] at hall
        rw [encodeFrom_char h hbytes (hkeep s _ hall.1) (fun b hb => hkeep s _ (hall.2 b hb))
          (hnext s), hkeep s c hascii, List.append_assoc]
        rfl

/-- **The loop writes what encoding the characters one by one writes**, and never cuts one. -/
theorem encode_eq (hkeep : AsciiKept keep) (s : σ) (t : Text) :
    encode keep s t = some (encoded keep s t) :=
  encodeFrom_eq hkeep t [] [] t rfl s

/-! ### The encoders -/

theorem asciiOnly_isUnreserved : AsciiOnly isUnreserved := by
  intro c h
  simp only [isUnreserved, Bool.or_eq_true, beq_iff_eq] at h
  rcases h with (((h | rfl) | rfl) | rfl) | rfl
  · exact isAscii_of_isAlphanum h
  all_goals decide

theorem asciiOnly_isReserved : AsciiOnly isReserved := by
  intro c h
  simp only [isReserved, Bool.or_eq_true, beq_iff_eq] at h
  rcases h with ((((((((((rfl | rfl) | rfl) | rfl) | rfl) | rfl) | rfl) | rfl) | rfl) | rfl)
    | rfl) | rfl <;> decide

theorem asciiOnly_endsSchemePart : AsciiOnly endsSchemePart := by
  intro c h
  simp only [endsSchemePart, Bool.or_eq_true, beq_iff_eq] at h
  rcases h with (rfl | rfl) | rfl <;> decide

theorem asciiKept_keepUnreserved : AsciiKept keepUnreserved := by
  intro s c hc
  rw [keepUnreserved, asciiOnly_isUnreserved.eq_false hc]

theorem asciiKept_keepNormal : AsciiKept keepNormal := by
  intro inScheme c hc
  have hcolon : (c == ':') = false := (asciiOnly_eq (by decide : isAscii ':' = true)).eq_false hc
  rw [keepNormal, asciiOnly_endsSchemePart.eq_false hc, hcolon, asciiOnly_isReserved.eq_false hc,
    asciiOnly_isUnreserved.eq_false hc]
  rfl

theorem encoded_keepUnreserved (t : Text) :
    encoded keepUnreserved () t = Url.encodeComponent t := by
  induction t with
  | nil => rfl
  | cons c t ih =>
    rw [encoded, keepUnreserved, ih]
    rfl

/-- The classes of the kept characters are apart from each other where it matters. -/
theorem keepNormal_eq (inScheme : Bool) (c : Char) :
    keepNormal inScheme c
      = (isNormal c && !(inScheme && c == ':'), inScheme && !endsSchemePart c) := by
  by_cases hends : endsSchemePart c = true
  · have hcolon : (c == ':') = false := beq_eq_false_iff_ne.mpr (ne_of_class hends (by decide))
    simp [keepNormal, isNormal, hends, hcolon]
  · by_cases hcolon : c = ':'
    · subst hcolon
      cases inScheme <;> rfl
    · have hne : (c == ':') = false := beq_eq_false_iff_ne.mpr hcolon
      simp [keepNormal, isNormal, hends, hne, Bool.or_comm]

theorem encoded_keepNormal_false (t : Text) : encoded keepNormal false t = Url.normalize t := by
  induction t with
  | nil => rfl
  | cons c t ih =>
    rw [encoded, keepNormal_eq, Bool.false_and, Bool.false_and, Bool.not_false, Bool.and_true, ih]
    rfl

theorem encoded_keepNormal_true (t : Text) :
    encoded keepNormal true t = Url.normalizeInScheme t := by
  induction t with
  | nil => rfl
  | cons c t ih =>
    rw [encoded, keepNormal_eq, Bool.true_and, Bool.true_and]
    by_cases hends : endsSchemePart c = true
    · -- from here on a `:` completes no scheme
      have hcolon : (c == ':') = false := beq_eq_false_iff_ne.mpr (ne_of_class hends (by decide))
      rw [hends, hcolon, Bool.not_true, Bool.not_false, Bool.and_true, encoded_keepNormal_false,
        Url.normalizeInScheme, List.takeWhile_cons, List.dropWhile_cons, hends]
      rfl
    · rw [Bool.not_eq_true] at hends
      rw [hends, Bool.not_false, ih, Url.normalizeInScheme, Url.normalizeInScheme,
        List.takeWhile_cons, List.dropWhile_cons, hends, ← List.append_assoc]
      rfl

/-! ### Schemes -/

theorem asciiOnly_endsScheme : AsciiOnly endsScheme := by
  intro c h
  simp only [endsScheme, Bool.or_eq_true, beq_iff_eq] at h
  rcases h with ((rfl | rfl) | rfl) | rfl <;> decide

/-- **The scheme is found and cut off**, where there is one. -/
theorem scheme?_eq (url : Text) : scheme? url = some (Url.scheme? url) := by
  cases stop endsScheme url with
  | found a d z ha hd =>
    have hascii : isAscii d = true := asciiOnly_endsScheme d hd
    have hfind : find? (a ++ d :: z) endsScheme = some (utf8Size a) := by
      rw [find?, if_pos (by simp [hd]), takeWhile_found ha hd]
    -- what ends the scheme is ASCII, so the byte found is the character
    have hbyte : (byteView (a ++ d :: z))[utf8Size a]? = some d := by
      rw [byteView_append, byteView_cons_of_isAscii hascii, List.getElem?_append_right (by simp)]
      simp
    rw [scheme?, Url.scheme?, hfind, dropWhile_found ha hd, takeWhile_found ha hd]
    simp only [hbyte, cutAt?_append, Option.bind_eq_bind, Option.bind_some]
    by_cases hcolon : d = ':'
    · subst hcolon
      rfl
    · simp [hcolon]
  | absent _ ht =>
    have hfind : find? url endsScheme = none := by
      rw [find?, if_neg]
      simpa using ht
    rw [scheme?, Url.scheme?, hfind, dropWhile_absent ht]

theorem filter_eq (allowed : List Scheme) (url : Text) :
    filter allowed url = some (Url.filter allowed url) := by
  have hnormal : normalize url = some (Url.normalize url) := by
    rw [normalize, encode_eq asciiKept_keepNormal, encoded_keepNormal_false]
  rw [filter, scheme?_eq, Url.filter, isAllowed, hnormal]
  simp only [Option.bind_eq_bind, Option.bind_some]
  cases Url.scheme? url with
  | none => rfl
  | some name =>
    cases hname : Scheme.ofName? name with
    | none => simp [hname]
    | some scheme => by_cases hmem : scheme ∈ allowed <;> simp [hname, hmem]

/-- **No encoder cuts a text inside a character**, and each writes what it writes for the characters
one by one. -/
theorem encoders_eq (t : Text) :
    encodeComponent t = some (Url.encodeComponent t) ∧ normalize t = some (Url.normalize t)
      ∧ normalizeInScheme t = some (Url.normalizeInScheme t) := by
  refine ⟨?_, ?_, ?_⟩
  · rw [encodeComponent, encode_eq asciiKept_keepUnreserved, encoded_keepUnreserved]
  · rw [normalize, encode_eq asciiKept_keepNormal, encoded_keepNormal_false]
  · rw [normalizeInScheme, encode_eq asciiKept_keepNormal, encoded_keepNormal_true]

end SafeMarkup.Url.Bytes
