import SafeMarkup.Proofs.HtmlEscape

/-!
# What escaping keeps

A character is escaped as itself or as a complete reference to it (`escapedAs`). The characters that
references consist of stay as they are. So escaping keeps the run of letters, digits and `#` after
an `&` and the `;` that may close it, and what the `&` turns out to be stays the same
(`scan_escape`).
-/

namespace SafeMarkup.Html

open CharRef

variable {quoting : Quoting} {soft : Bool} {c : Char}

/-! ### Single characters -/

/-- The characters other than `&` that are replaced, with what takes their place. -/
def replacements : List (Char × Text) :=
  [('<', "&lt;".toList), ('>', "&gt;".toList), ('"', "&#34;".toList), ('\'', "&#39;".toList),
    ('\x00', ['\ufffd']), ('\t', "&#9;".toList), ('\n', "&#10;".toList), ('\x0c', "&#12;".toList),
    ('\r', "&#13;".toList), (' ', "&#32;".toList), ('=', "&#61;".toList), ('\x60', "&#96;".toList)]

theorem mem_replacements {t : Text} (h : replacement? quoting c = some t) :
    (c, t) ∈ replacements := by
  unfold replacement? at h
  split at h
  -- the characters that are replaced outside of quotes only
  case h_6 =>
    cases quoting with
    | quoted => cases h
    | unquoted =>
      dsimp only at h
      split at h
      case h_8 => cases h
      all_goals cases h; decide
  all_goals cases h; decide

/-- Is the text a reference to the character that is complete whatever follows it? -/
def isReferenceTo (c : Char) : Text → Bool
  | '&' :: t => !t.contains '&' && scan false t == .complete (t.length + 1) c
  | _ => false

/-- A character other than `&` is escaped as itself, where a NUL is U+FFFD, or as a reference that
is complete whatever follows it. -/
inductive EscapedAs (quoting : Quoting) (c : Char) : Prop where
  | self (h : escapeChar quoting c = [Context.decoded c])
  | reference (t : Text) (h : escapeChar quoting c = '&' :: t) (ht : '&' ∉ t)
      (hscan : scan false t = .complete (t.length + 1) c)

theorem escapedAs (quoting : Quoting) (c : Char) : EscapedAs quoting c := by
  by_cases hnul : c = '\x00'
  · subst hnul
    exact .self rfl
  have hself : [Context.decoded c] = [c] := by rw [Context.decoded, if_neg hnul]
  cases hreplaced : replacement? quoting c with
  | none => exact .self (by rw [escapeChar, hreplaced, hself]; rfl)
  | some text =>
    have hchar : escapeChar quoting c = text := by rw [escapeChar, hreplaced]; rfl
    -- the replacements are a table, so each entry of it can be checked
    have hall : (replacements.all fun r => r.1 == '\x00' || isReferenceTo r.1 r.2) = true := by
      decide +kernel
    have hchecked := List.all_eq_true.mp hall _ (mem_replacements hreplaced)
    have href : isReferenceTo c text = true := by simpa [hnul] using hchecked
    unfold isReferenceTo at href
    split at href
    · next t =>
      rw [Bool.and_eq_true, Bool.not_eq_true', beq_iff_eq] at href
      exact .reference t hchar (by simpa using href.1) href.2
    · cases href

theorem decoded_ne_amp (hc : c ≠ '&') : Context.decoded c ≠ '&' := by
  unfold Context.decoded
  split
  · decide
  · exact hc

/-- Harmless characters need no escaping. -/
theorem escapeChar_of_isHarmless (h : isHarmless quoting c = true) :
    escapeChar quoting c = [c] := by
  simp only [isHarmless, Bool.and_eq_true, bne_iff_ne, ne_eq] at h
  obtain ⟨⟨⟨⟨⟨hlt, hgt⟩, hquote⟩, happ⟩, hnul⟩, hspace⟩ := h
  have hnone : replacement? quoting c = none := by
    unfold replacement?
    cases quoting with
    | quoted => simp_all
    | unquoted => simp_all [isHtmlSpace]
  rw [escapeChar, hnone]
  rfl

/-- A reference consists of harmless characters. -/
theorem isHarmless_of_isRefChar (quoting : Quoting) (h : isRefChar c = true ∨ c = ';') :
    isHarmless quoting c = true ∧ c ≠ '&' := by
  rcases h with h | rfl
  · have hne {d : Char} (hd : isRefChar d = false) : c ≠ d := ne_of_class h hd
    have hspace : isHtmlSpace c = false := isHtmlSpace_of_class h (by decide)
    have hlt := hne (d := '<') (by decide)
    have hgt := hne (d := '>') (by decide)
    have hquote := hne (d := '"') (by decide)
    have happ := hne (d := '\'') (by decide)
    have hnul := hne (d := '\x00') (by decide)
    have heq := hne (d := '=') (by decide)
    have htick := hne (d := '\x60') (by decide)
    exact ⟨by simp [isHarmless, hspace, hlt, hgt, hquote, happ, hnul, heq, htick],
      hne (by decide)⟩
  · cases quoting <;> decide

/-! ### Kept references -/

theorem escape_cons_of_ne (hc : c ≠ '&') (rest : Text) :
    escape quoting soft (c :: rest) = escapeChar quoting c ++ escape quoting soft rest := by
  rw [escape, if_neg hc]

theorem escape_amp_kept {rest : Text} {length : Nat} {char : Char}
    (h : scan true rest = .complete length char) :
    escape quoting true ('&' :: rest) = '&' :: escape quoting true rest := by
  simp [escape, startsRef, h]

theorem escape_amp_replaced {rest : Text} (h : (soft && startsRef rest) = false) :
    escape quoting soft ('&' :: rest) = "&amp;".toList ++ escape quoting soft rest := by
  rw [escape, if_pos rfl, h]
  rfl

/-- What a reference consists of is written as it is. -/
theorem escape_append_of_refChars (quoting : Quoting) (soft : Bool) {a : Text}
    (ha : ∀ c ∈ a, isRefChar c = true ∨ c = ';') (b : Text) :
    escape quoting soft (a ++ b) = a ++ escape quoting soft b := by
  induction a with
  | nil => rfl
  | cons c a ih =>
    obtain ⟨hc, ha⟩ := List.forall_mem_cons.mp ha
    obtain ⟨hharmless, hamp⟩ := isHarmless_of_isRefChar quoting hc
    rw [List.cons_append, escape_cons_of_ne hamp, escapeChar_of_isHarmless hharmless, ih ha]
    rfl

/-- A character that ends a run of letters and digits is written as itself or as something else that
ends the run. Only a `;` becomes a `;`. -/
theorem exists_cons_escape (quoting : Quoting) (soft : Bool) (hc : isRefChar c = false)
    (rest : Text) :
    ∃ d more, escape quoting soft (c :: rest) = d :: more
      ∧ isRefChar d = false ∧ (d = ';' ↔ c = ';') := by
  by_cases hamp : c = '&'
  · subst hamp
    rw [escape, if_pos rfl]
    split
    · exact ⟨'&', _, rfl, by decide, by decide⟩
    · exact ⟨'&', _, rfl, by decide, by decide⟩
  rw [escape_cons_of_ne hamp]
  cases escapedAs quoting c with
  | self h =>
    refine ⟨Context.decoded c, escape quoting soft rest, by rw [h]; rfl, ?_⟩
    unfold Context.decoded
    split
    · next hnul =>
      subst hnul
      exact ⟨by decide, by decide⟩
    · exact ⟨hc, Iff.rfl⟩
  | reference t h _ _ =>
    refine ⟨'&', t ++ escape quoting soft rest, by rw [h]; rfl, by decide, ?_⟩
    -- a `;` is not replaced
    have hsemi : c ≠ ';' := by
      rintro rfl
      have hself : escapeChar quoting ';' = [';'] :=
        escapeChar_of_isHarmless (isHarmless_of_isRefChar quoting (Or.inr rfl)).1
      rw [hself] at h
      cases h
    simp [hsemi]

/-- **Escaping does not change what an `&` turns out to be.** -/
theorem scan_escape (rest : Text) : scan true (escape quoting soft rest) = scan true rest := by
  by_cases hend : rest.dropWhile isRefChar = []
  · have hrun : ∀ c ∈ rest, isRefChar c = true := List.dropWhile_eq_nil_iff.mp hend
    have hself := escape_append_of_refChars quoting soft
      (fun c hc => Or.inl (hrun c hc)) []
    rw [List.append_nil, escape_nil, List.append_nil] at hself
    rw [hself]
  · obtain ⟨a, y, z, rfl, ha, hy⟩ := exists_stop hend
    -- escaping keeps the run, and what comes after it still ends it
    obtain ⟨d, more, hcons, hd, hsemi⟩ := exists_cons_escape quoting soft hy z
    rw [escape_append_of_refChars quoting soft (fun c hc => Or.inl (ha c hc)), hcons]
    exact scan_congr true true hd hy hsemi

theorem startsRef_escape (rest : Text) :
    startsRef (escape quoting soft rest) = startsRef rest := by
  rw [startsRef, startsRef, scan_escape]

/-- The rest of a reference is kept as a whole, and escaping goes on after it. -/
theorem escape_reference {rest : Text} {length : Nat} {char : Char}
    (h : scan true rest = .complete length char) :
    escape quoting soft rest
      = rest.take (length - 1) ++ escape quoting soft (rest.drop (length - 1)) := by
  rw [← escape_append_of_refChars quoting soft (mem_of_scan h), List.take_append_drop]

theorem drop_escape {rest : Text} {length : Nat} {char : Char}
    (h : scan true rest = .complete length char) :
    (escape quoting soft rest).drop (length - 1)
      = escape quoting soft (rest.drop (length - 1)) := by
  have hlen := (scan_length h).2
  rw [escape_reference h, List.drop_left' (by rw [List.length_take]; omega)]

end SafeMarkup.Html
