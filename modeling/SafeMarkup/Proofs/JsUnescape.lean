import SafeMarkup.Proofs.JsForm
import SafeMarkup.Proofs.JsPieces
import SafeMarkup.Proofs.Template

/-!
# Escaped JS strings are read back

A character is written as itself or as a complete escape (`form_escapeStringChar`), and such an
escape is read by itself whatever comes next. So the value of a string that starts with an escaped
text starts with the text, and goes on with what follows the escaped text
(`unescape_escapeString_append`). No escape is open at the end of an escaped text, and none of its
characters has a meaning in markup or ends a string (`wellEscaped_escapeString`).
-/

namespace SafeMarkup.Js

open Html.CharRef (value)

variable {c : Char} {s t : Text}

/-! ### Code units -/

/-- **The code units of a character are read by themselves**, whatever comes after them. -/
theorem ofUnits_units_append (c : Char) (rest : List Nat) :
    ofUnits (units c ++ rest) = c :: ofUnits rest := by
  have hvalid : c.toNat.isValidChar := c.valid
  by_cases hunit : c.toNat < 0x10000
  · -- a character is no surrogate
    have hself : ofUnit c.toNat = c := by rw [ofUnit, if_pos hvalid, Char.ofNat_toNat]
    rw [units, if_pos hunit, List.singleton_append]
    cases rest with
    | nil => exact congrArg ([·]) hself
    | cons low rest =>
      have hnone : ofPair? c.toNat low = none := by
        rw [ofPair?, if_neg]
        rcases hvalid with h | ⟨h, -⟩ <;> omega
      rw [ofUnits, hnone, hself]
  · have hlarge : c.toNat < 0x110000 := by
      rcases hvalid with h | ⟨-, h⟩ <;> omega
    have hpair : ofPair? (0xd800 + (c.toNat - 0x10000) / 0x400)
        (0xdc00 + (c.toNat - 0x10000) % 0x400) = some c := by
      have hcode : 0x10000 + (0xd800 + (c.toNat - 0x10000) / 0x400 - 0xd800) * 0x400
          + (0xdc00 + (c.toNat - 0x10000) % 0x400 - 0xdc00) = c.toNat := by omega
      rw [ofPair?, if_pos (by omega), hcode, Char.ofNat_toNat]
    rw [units, if_neg hunit, List.cons_append, List.singleton_append, ofUnits, hpair]

/-! ### Reading -/

/-- **A written character is read back**, and what follows it is read by itself. -/
theorem Form.readWith_units (h : Form c t) (rest : Text) :
    readWith units Escape.units (t ++ rest) = units c ++ readWith units Escape.units rest := by
  cases h with
  | self _ hback _ => exact readWith_cons _ _ hback rest
  | sign hsign =>
    obtain ⟨hlength, hvalue, -⟩ := of_isSign hsign
    have hread := readWith_char units Escape.units hlength rest
    rwa [Escape.units, hvalue] at hread
  | letter l hl =>
    obtain ⟨hlength, hvalue, -⟩ := of_mem_letters hl
    have hread := readWith_char units Escape.units hlength rest
    rwa [Escape.units, hvalue] at hread
  | number x digits hlength hdigits hvalue hunit =>
    have hread := readWith_number units Escape.units hlength hdigits rest
    have hunits : units c = [c.toNat] := by rw [units, if_pos hunit]
    rwa [Escape.units, hvalue, ← hunits] at hread

/-- **An escaped string is read back**, whatever follows it. -/
theorem unescape_escapeString_append (s t : Text) :
    unescape (escapeString s ++ t) = s ++ unescape t := by
  induction s with
  | nil => rfl
  | cons c s ih =>
    rw [escapeString, List.flatMap_cons, List.append_assoc, unescape,
      (form_escapeStringChar c).readWith_units, ofUnits_units_append]
    exact congrArg (c :: ·) ih

/-! ### The shape of escaped text -/

/-- Is there the rest of an escape after a backslash? -/
def startsEscape : Text → Bool
  | [] => false
  | c :: rest =>
    match hexLength? c with
    | none => true
    | some n => (hexNumber? n rest).isSome

/-- No character of the text has a meaning around the string. A `/` has a backslash before it that
starts an escape, and wherever a backslash starts an escape, all of the escape is there. -/
structure WellEscaped (t : Text) : Prop where
  harmless : ∀ c ∈ t, isSpecial c = false
  slash : ∀ before after, t = before ++ '/' :: after →
    ∃ start, before = start ++ ['\\'] ∧ endsInEscape start = false
  escape : ∀ before after, t = before ++ '\\' :: after → endsInEscape before = false →
    startsEscape after = true

theorem startsEscape_append (h : startsEscape s = true) (t : Text) :
    startsEscape (s ++ t) = true := by
  cases s with
  | nil => cases h
  | cons c rest =>
    rw [List.cons_append, startsEscape]
    rw [startsEscape] at h
    cases hlength : hexLength? c with
    | none => rfl
    | some n =>
      simp only [hlength, hexNumber?] at h ⊢
      -- the digits are there already, so they are the first ones of the longer text
      split at h
      · next hdigits =>
        have hle : n ≤ (rest ++ t).length := by
          rw [List.length_append]
          omega
        rw [List.take_append_of_le_length hdigits.1, if_pos ⟨hle, hdigits.2⟩]
        rfl
      · cases h

theorem endsInEscape_append (h : endsInEscape s = false) (t : Text) :
    endsInEscape (s ++ t) = endsInEscape t := by
  rw [endsInEscape, List.foldl_append, ← endsInEscape, h]
  rfl

/-- Where a character of `a ++ b` stands: in `a`, or in `b` after all of `a`. -/
theorem eq_append_cons {a b before after : Text} (h : a ++ b = before ++ c :: after) :
    (∃ rest, a = before ++ c :: rest ∧ after = rest ++ b)
      ∨ ∃ start, before = a ++ start ∧ b = start ++ c :: after := by
  rcases List.append_eq_append_iff.mp h with ⟨start, hbefore, hb⟩ | ⟨rest, ha, hrest⟩
  · exact .inr ⟨start, hbefore, hb⟩
  · cases rest with
    | nil => exact .inr ⟨[], by simpa using ha.symm, by simpa using hrest.symm⟩
    | cons d rest =>
      obtain ⟨rfl, hafter⟩ := List.cons.inj hrest
      exact .inl ⟨rest, ha, hafter⟩

/-- **Escaped texts can be put together** if no escape is open between them. -/
theorem WellEscaped.append (hs : WellEscaped s) (ht : WellEscaped t)
    (hclosed : endsInEscape s = false) : WellEscaped (s ++ t) where
  harmless := by
    intro c hc
    rcases List.mem_append.mp hc with hc | hc
    · exact hs.harmless c hc
    · exact ht.harmless c hc
  slash := by
    intro before after heq
    -- the slash is in the first text, or in the second, which starts with nothing open
    rcases eq_append_cons heq with ⟨rest, hrest, -⟩ | ⟨start, rfl, hstart⟩
    · exact hs.slash before rest hrest
    · obtain ⟨more, rfl, hopen⟩ := ht.slash start after hstart
      exact ⟨s ++ more, by simp, by rw [endsInEscape_append hclosed, hopen]⟩
  escape := by
    intro before after heq hopen
    rcases eq_append_cons heq with ⟨rest, hrest, rfl⟩ | ⟨start, rfl, hstart⟩
    · exact startsEscape_append (hs.escape before rest hrest hopen) t
    · rw [endsInEscape_append hclosed] at hopen
      exact ht.escape start after hstart hopen

theorem endsInEscape_of_notMem (h : '\\' ∉ t) : endsInEscape t = false := by
  induction t with
  | nil => rfl
  | cons c t ih =>
    rw [List.mem_cons, not_or] at h
    have hc : endsInEscape [c] = false := by simp [endsInEscape, Ne.symm h.1]
    rw [← List.singleton_append, endsInEscape_append hc, ih h.2]

/-- An escape whose backslash is the only one, unless an escaped backslash comes right after it. -/
theorem wellEscaped_escape {d : Char} {digits : Text}
    (hharmless : ∀ e ∈ '\\' :: d :: digits, isSpecial e = false)
    (hdigits : ∀ e ∈ digits, e ≠ '\\' ∧ e ≠ '/')
    (hstarts : startsEscape (d :: digits) = true) :
    WellEscaped ('\\' :: d :: digits) ∧ endsInEscape ('\\' :: d :: digits) = false := by
  refine ⟨⟨hharmless, ?_, ?_⟩, ?_⟩
  · -- a slash can only be the character after the backslash
    intro before after heq
    rcases before with _ | ⟨b, _ | ⟨b', before⟩⟩
    · cases heq
    · obtain ⟨rfl, -⟩ := List.cons.inj heq
      exact ⟨[], rfl, rfl⟩
    · have hmem : '/' ∈ digits := by
        rw [(List.cons.inj (List.cons.inj heq).2).2]
        simp
      exact absurd rfl (hdigits _ hmem).2
  · -- before a second backslash nothing is open, and a third is none of the digits
    intro before after heq hopen
    rcases before with _ | ⟨b, _ | ⟨b', before⟩⟩
    · rw [← (List.cons.inj heq).2]
      exact hstarts
    · obtain ⟨rfl, -⟩ := List.cons.inj heq
      cases hopen
    · have hmem : '\\' ∈ digits := by
        rw [(List.cons.inj (List.cons.inj heq).2).2]
        simp
      exact absurd rfl (hdigits _ hmem).1
  · show endsInEscape digits = false
    exact endsInEscape_of_notMem fun hmem => (hdigits _ hmem).1 rfl

/-- **A written character** is a complete escape if it is one at all. -/
theorem Form.wellEscaped (h : Form c t) : WellEscaped t ∧ endsInEscape t = false := by
  have hharmless : ∀ d ∈ t, isSpecial d = false := fun d => h.isSpecial_of_mem
  cases h with
  | self hc hback hslash =>
    -- a character that is written as it is is neither a slash nor a backslash
    refine ⟨⟨hharmless, ?_, ?_⟩, endsInEscape_of_notMem (by simpa using Ne.symm hback)⟩
    · intro before after heq
      have hmem : '/' ∈ [c] := by simp [heq]
      exact absurd (List.mem_singleton.mp hmem).symm hslash
    · intro before after heq
      have hmem : '\\' ∈ [c] := by simp [heq]
      exact absurd (List.mem_singleton.mp hmem).symm hback
  | sign hsign =>
    exact wellEscaped_escape hharmless (by simp) (by rw [startsEscape, (of_isSign hsign).1])
  | letter l hl =>
    exact wellEscaped_escape hharmless (by simp) (by rw [startsEscape, (of_mem_letters hl).1])
  | number x digits hlength hdigits hvalue hunit =>
    have hhex : ∀ e ∈ digits, isHexDigit e = true := List.all_eq_true.mp hdigits
    have hread := hexNumber?_append hdigits []
    rw [List.append_nil] at hread
    exact wellEscaped_escape hharmless
      (fun e he => ⟨ne_of_class (hhex e he) (by decide), ne_of_class (hhex e he) (by decide)⟩)
      (by simp [startsEscape, hlength, hread])

theorem wellEscaped_escapeString (s : Text) :
    WellEscaped (escapeString s) ∧ endsInEscape (escapeString s) = false := by
  induction s with
  | nil => exact ⟨⟨by simp [escapeString], by simp [escapeString], by simp [escapeString]⟩, rfl⟩
  | cons c s ih =>
    obtain ⟨hchar, hclosed⟩ := (form_escapeStringChar c).wellEscaped
    rw [escapeString, List.flatMap_cons, ← escapeString]
    exact ⟨hchar.append ih.1 hclosed, (endsInEscape_append hclosed _).trans ih.2⟩

/-- **Escaping for strings is undone by reading the string**, whatever follows. What is written is
safe around the string too. A backslash that another one escapes is the end of its escape, and every
other one starts an escape that is complete. -/
theorem escaped_strings_are_read_back (s : Text) :
    Bytes.escapeString s = some (escapeString s)
      ∧ (∀ t, unescape (escapeString s ++ t) = s ++ unescape t)
      ∧ WellEscaped (escapeString s) :=
  ⟨Bytes.escapeString_eq s, unescape_escapeString_append s, (wellEscaped_escapeString s).1⟩

end SafeMarkup.Js
