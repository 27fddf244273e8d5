import SafeMarkup.Proofs.EndTags
import SafeMarkup.Proofs.UrlEscape
import SafeMarkup.Proofs.UrlPieces
import SafeMarkup.Url.Decode

/-!
# Encoded URLs are read as the texts they were

A percent form is read as its byte, whatever comes after it, so an encoded component is read as the
text (`decode_encodeComponent`). Normalizing keeps every `%`, with or without digits after it. What
it encodes is no digit, and what it writes for that starts with a `%`, so the digits after a kept
`%` are the same as before, and the reading of the text does not change (`Recoded.decode_eq`).

Normalizing also leaves alone what shows the scheme of a URL. So an allowed URL is still allowed
once it is normalized, and filtering it again changes nothing (`filter_filter`).
-/

namespace SafeMarkup.Url

variable {keep : Char → Bool} {a b c : Char} {s t u : Text}

/-! ### Percent forms are read back -/

theorem decode_percentByte (byte : UInt8) (t : Text) :
    decode (percent byte ++ t) = byte :: decode t := by
  have hlt := byte.toNat_lt
  have hhigh : byte.toNat / 16 < 16 := by omega
  have hlow : byte.toNat % 16 < 16 := Nat.mod_lt _ (by decide)
  have hsum : byte.toNat / 16 * 16 + byte.toNat % 16 = byte.toNat := by omega
  show decode ('%' :: _ :: _ :: t) = _
  rw [decode_percent (isHexDigit_digitChar hhigh) (isHexDigit_digitChar hlow),
    hexDigitValue_digitChar hhigh, hexDigitValue_digitChar hlow, hsum, UInt8.ofNat_toNat]

/-- **The form of a character is read as the character.** -/
theorem decode_percentChar (c : Char) (t : Text) :
    decode (percentChar c ++ t) = String.utf8EncodeChar c ++ decode t := by
  rw [percentChar]
  induction String.utf8EncodeChar c with
  | nil => rfl
  | cons byte bytes ih =>
    rw [List.flatMap_cons, List.append_assoc, decode_percentByte, ih, List.cons_append]

/-! ### Components -/

/-- A text of unreserved characters and percent forms. -/
inductive IsComponent : Text → Prop where
  | nil : IsComponent []
  | unreserved (c : Char) (t : Text) (hc : isUnreserved c = true) (ht : IsComponent t) :
      IsComponent (c :: t)
  | percent (a b : Char) (t : Text) (ha : isHexDigit a = true) (hb : isHexDigit b = true)
      (ht : IsComponent t) : IsComponent ('%' :: a :: b :: t)

theorem isComponent_percentChar_append (c : Char) (ht : IsComponent t) :
    IsComponent (percentChar c ++ t) := by
  rw [percentChar]
  induction String.utf8EncodeChar c with
  | nil => exact ht
  | cons byte bytes ih =>
    have hlt := byte.toNat_lt
    rw [List.flatMap_cons, List.append_assoc]
    exact .percent _ _ _ (isHexDigit_digitChar (by omega))
      (isHexDigit_digitChar (Nat.mod_lt _ (by decide))) ih

theorem isComponent_encodeComponent (t : Text) : IsComponent (encodeComponent t) := by
  induction t with
  | nil => exact .nil
  | cons c t ih =>
    rw [encodeComponent, encodeUnless, List.flatMap_cons]
    split
    · next hc => exact .unreserved c _ hc ih
    · exact isComponent_percentChar_append c ih

/-- **An encoded component is read as the text.** -/
theorem decode_encodeComponent (t : Text) : decode (encodeComponent t) = t.utf8Bytes := by
  induction t with
  | nil => rfl
  | cons c t ih =>
    rw [encodeComponent, encodeUnless, List.flatMap_cons, Text.utf8Bytes, List.flatMap_cons]
    split
    · next hc =>
      rw [List.singleton_append, decode_cons (ne_of_class hc (by decide))]
      exact congrArg (String.utf8EncodeChar c ++ ·) ih
    · rw [decode_percentChar]
      exact congrArg (String.utf8EncodeChar c ++ ·) ih

/-! ### Texts of which some characters are encoded -/

/-- `u` is `t` with some of its characters encoded, but neither digits nor `%`. -/
inductive Recoded : Text → Text → Prop where
  | nil : Recoded [] []
  | kept (c : Char) (t u : Text) (h : Recoded t u) : Recoded (c :: t) (c :: u)
  | encoded (c : Char) (t u : Text) (hdigit : isHexDigit c = false) (hpercent : c ≠ '%')
      (h : Recoded t u) : Recoded (c :: t) (percentChar c ++ u)

theorem Recoded.append {t' u' : Text} (h : Recoded t u) (h' : Recoded t' u') :
    Recoded (t ++ t') (u ++ u') := by
  induction h with
  | nil => exact h'
  | kept c t u _ ih => exact .kept c _ _ ih
  | encoded c t u hdigit hpercent _ ih =>
    rw [List.append_assoc]
    exact .encoded c _ _ hdigit hpercent ih

/-- A digit at the start stays there, and no other one comes there. -/
theorem Recoded.digit (h : Recoded t u) (ha : isHexDigit a = true) :
    (∃ t', t = a :: t') ↔ ∃ u', u = a :: u' := by
  cases h with
  | nil => simp
  | kept c t u => simp
  | encoded c t u hdigit =>
    obtain ⟨digits, hdigits⟩ := exists_percentChar c
    have hc : c ≠ a := (ne_of_class ha hdigit).symm
    have hpercent : '%' ≠ a := (ne_of_class ha (by decide)).symm
    simp [hdigits, hc, hpercent]

theorem Recoded.tail (h : Recoded (a :: t) (a :: u)) (ha : isHexDigit a = true) : Recoded t u := by
  generalize ht : a :: t = t' at h
  generalize hu : a :: u = u' at h
  cases h with
  | nil => cases ht
  | kept c t'' u'' h =>
    cases ht
    cases hu
    exact h
  | encoded c t'' u'' hdigit =>
    cases ht
    rw [ha] at hdigit
    cases hdigit

theorem startsDigits_iff : startsDigits t = true
    ↔ ∃ a b rest, t = a :: b :: rest ∧ isHexDigit a = true ∧ isHexDigit b = true := by
  match t with
  | [] | [_] => simp [startsDigits]
  | a :: b :: rest =>
    rw [startsDigits, Bool.and_eq_true]
    constructor
    · exact fun h => ⟨a, b, rest, rfl, h⟩
    · rintro ⟨_, _, _, heq, h⟩
      cases heq
      exact h

/-- **The digits after a `%` stay as they are.** -/
theorem Recoded.startsDigits_eq (h : Recoded t u) : startsDigits u = startsDigits t := by
  rw [Bool.eq_iff_iff, startsDigits_iff, startsDigits_iff]
  constructor
  · rintro ⟨a, b, rest, rfl, ha, hb⟩
    obtain ⟨t', rfl⟩ := (h.digit ha).mpr ⟨_, rfl⟩
    obtain ⟨t'', rfl⟩ := ((h.tail ha).digit hb).mpr ⟨_, rfl⟩
    exact ⟨a, b, t'', rfl, ha, hb⟩
  · rintro ⟨a, b, rest, rfl, ha, hb⟩
    obtain ⟨u', rfl⟩ := (h.digit ha).mp ⟨_, rfl⟩
    obtain ⟨u'', rfl⟩ := ((h.tail ha).digit hb).mp ⟨_, rfl⟩
    exact ⟨a, b, u'', rfl, ha, hb⟩

/-- **Encoding does not change what a text is read as.** -/
theorem Recoded.decode_eq (h : Recoded t u) : decode u = decode t := by
  induction h with
  | nil => rfl
  | encoded c t u hdigit hpercent h ih => rw [decode_percentChar, decode_cons hpercent, ih]
  | kept c t u h ih =>
    by_cases hc : c = '%'
    · subst hc
      have hdigits := h.startsDigits_eq
      cases hstarts : startsDigits t with
      | false => rw [decode_lone_percent (hdigits.trans hstarts), decode_lone_percent hstarts, ih]
      | true =>
        match t, hstarts with
        | a :: b :: t', hstarts =>
          rw [startsDigits, Bool.and_eq_true] at hstarts
          obtain ⟨ha, hb⟩ := hstarts
          obtain ⟨u', rfl⟩ := (h.digit ha).mp ⟨_, rfl⟩
          obtain ⟨u'', rfl⟩ := ((h.tail ha).digit hb).mp ⟨_, rfl⟩
          -- the digits themselves are read alike, so the rests are
          rw [decode_cons (ne_of_class ha (by decide)), decode_cons (ne_of_class hb (by decide)),
            decode_cons (ne_of_class ha (by decide)), decode_cons (ne_of_class hb (by decide)),
            List.append_cancel_left_eq, List.append_cancel_left_eq] at ih
          rw [decode_percent ha hb, decode_percent ha hb, ih]
    · rw [decode_cons hc, decode_cons hc, ih]

theorem recoded_encodeUnless (hdigit : ∀ c, isHexDigit c = true → keep c = true)
    (hpercent : keep '%' = true) (t : Text) : Recoded t (encodeUnless keep t) := by
  induction t with
  | nil => exact .nil
  | cons c t ih =>
    rw [encodeUnless, List.flatMap_cons]
    split
    · exact .kept c _ _ ih
    · next hc =>
      have hnot : isHexDigit c = false := Bool.eq_false_iff.mpr fun h => hc (hdigit c h)
      exact .encoded c _ _ hnot (fun e => hc (e ▸ hpercent)) ih

/-! ### Normalized texts -/

/-- The characters that a URL is made of after normalizing it. -/
def urlChars : Text :=
  ['/', '?', '#', ':', '%', '[', ']', '@', '!', '$', '&', '*', '+', ',', ';', '=']

/-- What normalizing a text does: only some characters are left, which stay as they are from then
on, and the text is read as before. -/
structure Normalizes (encode : Text → Text) (t : Text) : Prop where
  chars : ∀ c ∈ encode t, isUnreserved c = true ∨ c ∈ urlChars
  stable : encode (encode t) = encode t
  meaning : decode (encode t) = decode t

theorem mem_urlChars (h : isNormal c = true) : isUnreserved c = true ∨ c ∈ urlChars := by
  simp only [isNormal, isReserved, endsSchemePart, Bool.or_eq_true, beq_iff_eq] at h
  rcases h with ((h | h) | h) | h
  · exact .inl h
  all_goals
    right
    simp only [urlChars, List.mem_cons, List.not_mem_nil, or_false]
    grind

/-- What is kept anyway is not changed. -/
theorem encodeUnless_of_forall (ht : ∀ c ∈ t, keep c = true) : encodeUnless keep t = t := by
  induction t with
  | nil => rfl
  | cons c t ih =>
    obtain ⟨hc, ht'⟩ := List.forall_mem_cons.mp ht
    rw [encodeUnless, List.flatMap_cons, if_pos hc]
    exact congrArg (c :: ·) (ih ht')

theorem normalize_normalize (t : Text) : normalize (normalize t) = normalize t :=
  encodeUnless_of_forall fun _ hc => isNormal_of_mem_normalize hc

theorem normalizes_normalize (t : Text) : Normalizes normalize t where
  chars _ hc := mem_urlChars (isNormal_of_mem_normalize hc)
  stable := normalize_normalize t
  meaning := (recoded_encodeUnless (fun _ => isNormal_of_isHexDigit) rfl t).decode_eq

/-! ### Continuations of schemes -/

theorem normalizes_normalizeInScheme (t : Text) : Normalizes normalizeInScheme t where
  chars c hc := by
    obtain ⟨start, rest, heq, hstart, hrest, -⟩ := exists_normalizeInScheme t
    rw [heq, List.mem_append] at hc
    refine mem_urlChars (hc.elim (fun hc => ?_) (hrest c))
    exact (Bool.and_eq_true_iff.mp (hstart c hc).1).1
  stable := by
    obtain ⟨start, rest, heq, hstart, hrest, hfirst⟩ := exists_normalizeInScheme t
    -- encoding does not move the end of the scheme part
    have htake : (start ++ rest).takeWhile (!endsSchemePart ·) = start
        ∧ (start ++ rest).dropWhile (!endsSchemePart ·) = rest := by
      have hbefore : ∀ c ∈ start, endsSchemePart c = false := fun c hc => (hstart c hc).2
      rcases hfirst with rfl | ⟨d, more, rfl, hd⟩
      · rw [List.append_nil]
        exact ⟨Text.takeWhile_absent hbefore, Text.dropWhile_absent hbefore⟩
      · exact ⟨Text.takeWhile_found hbefore hd, Text.dropWhile_found hbefore hd⟩
    rw [heq, normalizeInScheme, htake.1, htake.2]
    exact congrArg₂ _ (encodeUnless_of_forall fun c hc => (hstart c hc).1)
      (encodeUnless_of_forall hrest)
  meaning := by
    have hstart : Recoded (t.takeWhile (!endsSchemePart ·))
        (encodeUnless isNormalInScheme (t.takeWhile (!endsSchemePart ·))) :=
      recoded_encodeUnless (fun _ => isNormalInScheme_of_isHexDigit) rfl _
    have hrest : Recoded (t.dropWhile (!endsSchemePart ·))
        (normalize (t.dropWhile (!endsSchemePart ·))) :=
      recoded_encodeUnless (fun _ => isNormal_of_isHexDigit) rfl _
    have hall := hstart.append hrest
    rw [List.takeWhile_append_dropWhile] at hall
    exact hall.decode_eq

/-- No `:` comes before the first `/`, `?` or `#`. -/
def CompletesNoScheme (t : Text) : Prop :=
  ∀ before after, t = before ++ ':' :: after → ∃ c ∈ before, c = '/' ∨ c = '?' ∨ c = '#'

theorem completesNoScheme_iff : CompletesNoScheme t
    ↔ ∀ before after, t = before ++ ':' :: after → ∃ c ∈ before, endsSchemePart c = true := by
  simp only [CompletesNoScheme, endsSchemePart, Bool.or_eq_true, beq_iff_eq, or_assoc]

/-- **A `:` comes only after the part that may be a scheme.** -/
theorem completesNoScheme_normalizeInScheme (t : Text) :
    CompletesNoScheme (normalizeInScheme t) := by
  rw [completesNoScheme_iff]
  intro before after h
  obtain ⟨start, rest, heq, hstart, -, hfirst⟩ := exists_normalizeInScheme t
  rw [heq] at h
  rcases List.append_eq_append_iff.mp h with ⟨more, rfl, hrest⟩ | ⟨more, rfl, hmore⟩
  · rcases hfirst with rfl | ⟨d, z, rfl, hd⟩
    · simp at hrest
    · -- what ends the part is no `:` itself
      rcases more with _ | ⟨e, more⟩
      · obtain ⟨rfl, -⟩ := List.cons.inj hrest
        exact absurd hd (by decide)
      · obtain ⟨rfl, -⟩ := List.cons.inj hrest
        exact ⟨d, by simp, hd⟩
  · rcases more with _ | ⟨e, more⟩
    · rcases hfirst with rfl | ⟨d, z, rfl, hd⟩
      · cases hmore
      · obtain ⟨rfl, -⟩ := List.cons.inj hmore
        exact absurd hd (by decide)
    · obtain ⟨rfl, -⟩ := List.cons.inj hmore
      exact absurd (hstart ':' (by simp)).1 (by decide)

/-! ### Schemes of normalized URLs -/

theorem isNormal_of_endsScheme (h : endsScheme c = true) : isNormal c = true := by
  simp only [endsScheme, Bool.or_eq_true, beq_iff_eq] at h
  rcases h with ((rfl | rfl) | rfl) | rfl <;> decide

theorem endsScheme_of_isHexDigit (h : isHexDigit c = true) : endsScheme c = false := by
  have hne {d : Char} (hd : isHexDigit d = false) : c ≠ d := ne_of_class h hd
  simp [endsScheme, hne (d := ':') rfl, hne (d := '/') rfl, hne (d := '?') rfl,
    hne (d := '#') rfl]

/-- **The scheme of a normalized URL** is its scheme, normalized. -/
theorem scheme?_normalize (t : Text) : scheme? (normalize t) = (scheme? t).map normalize := by
  -- encoding adds no character that could end the scheme
  have hnone {a : Text} (ha : ∀ c ∈ a, endsScheme c = false) :
      ∀ c ∈ normalize a, endsScheme c = false :=
    forall_encodeUnless (fun c hc _ => ha c hc) (by decide) fun _ => endsScheme_of_isHexDigit
  cases Text.stop endsScheme t with
  | found a d z ha hd =>
    have hsplit : normalize (a ++ d :: z) = normalize a ++ d :: normalize z := by
      rw [normalize, encodeUnless_append, ← normalize, ← normalize,
        normalize_cons (isNormal_of_endsScheme hd)]
    rw [hsplit, scheme?, scheme?, Text.dropWhile_found (hnone ha) hd,
      Text.takeWhile_found (hnone ha) hd, Text.dropWhile_found ha hd, Text.takeWhile_found ha hd]
    by_cases hcolon : d = ':'
    · subst hcolon
      rfl
    · simp [hcolon]
  | absent _ ht =>
    rw [scheme?, scheme?, Text.dropWhile_absent ht, Text.dropWhile_absent (hnone ht)]
    rfl

/-- The names of known schemes are made of letters. -/
theorem isNormal_of_ofName? {name : Text} {scheme : Scheme}
    (h : Scheme.ofName? name = some scheme) : ∀ c ∈ name, isNormal c = true := by
  rw [Scheme.ofName?] at h
  have hsame := List.find?_some h
  have hname : Text.lower scheme.name = Text.lower name := eq_of_beq hsame
  have hletters : ∀ d ∈ Text.lower scheme.name, d.isAlpha = true := by
    cases scheme <;> exact List.all_eq_true.mp (by decide)
  intro c hc
  have hlower : c.toLower.isAlpha = true := by
    refine hletters _ ?_
    rw [hname]
    exact List.mem_map_of_mem hc
  have halpha : c.isAlpha = true := isAlpha_of_toLower hlower
  simp [isNormal, isUnreserved, Char.isAlphanum, halpha]

theorem isAllowed_normalize {allowed : List Scheme} (h : isAllowed allowed t = true) :
    isAllowed allowed (normalize t) = true := by
  unfold isAllowed at h ⊢
  rw [scheme?_normalize]
  cases hscheme : scheme? t with
  | none => rfl
  | some name =>
    rw [hscheme] at h
    cases hname : Scheme.ofName? name with
    | none => simp [hname] at h
    | some scheme =>
      have hself : normalize name = name := encodeUnless_of_forall (isNormal_of_ofName? hname)
      simpa [hself, hname] using h

/-- **Filtering a URL again changes nothing.** -/
theorem filter_filter (allowed : List Scheme) (t : Text) :
    filter allowed (filter allowed t) = filter allowed t := by
  by_cases h : isAllowed allowed t = true
  · rw [filter, filter, if_pos h, if_pos (isAllowed_normalize h), normalize_normalize]
  · -- the placeholder has no scheme, so it is allowed
    have hplaceholder : isAllowed allowed placeholder = true := rfl
    rw [filter, filter, if_neg h, if_pos hplaceholder]
    decide

/-- **Encoding keeps the meaning of a text, and is done once.** No encoder cuts a text inside a
character. An encoded component consists of unreserved characters and percent forms and is read as
the text. A normalized URL consists of characters of URLs, is read as the URL was, and stays as it
is when it is normalized again. If the URL may have been in its scheme, no `:` is left before the
first `/`, `?` or `#`. Filtering a URL again changes nothing, whatever schemes are allowed. -/
theorem encoding_keeps_meaning (t : Text) (allowed : List Scheme) :
    (Bytes.encodeComponent t = some (encodeComponent t) ∧ Bytes.normalize t = some (normalize t)
        ∧ Bytes.normalizeInScheme t = some (normalizeInScheme t)
        ∧ Bytes.filter allowed t = some (filter allowed t))
      ∧ decode (encodeComponent t) = t.utf8Bytes ∧ IsComponent (encodeComponent t)
      ∧ Normalizes normalize t ∧ Normalizes normalizeInScheme t
      ∧ CompletesNoScheme (normalizeInScheme t)
      ∧ filter allowed (filter allowed t) = filter allowed t := by
  obtain ⟨hcomponent, hnormalize, hscheme⟩ := Bytes.encoders_eq t
  exact ⟨⟨hcomponent, hnormalize, hscheme, Bytes.filter_eq allowed t⟩, decode_encodeComponent t,
    isComponent_encodeComponent t, normalizes_normalize t, normalizes_normalizeInScheme t,
    completesNoScheme_normalizeInScheme t, filter_filter allowed t⟩

end SafeMarkup.Url
