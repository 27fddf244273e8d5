import SafeMarkup.Js.Pattern
import SafeMarkup.Proofs.JsEscape
import SafeMarkup.Proofs.JsPieces

/-!
# Escaped patterns match their text

The escapes for patterns are those for strings and a backslash before what has a meaning in patterns
only. Every character is read as a literal again, whatever comes next, with one exception: U+0008 is
written as `\b`, which is a character in strings and the border of a word in patterns
(`terms_escapeRegexpChar_append`). So the pattern for a text is a row of literals that spell the
text if and only if the text does not contain that character.
-/

namespace SafeMarkup.Js.Pattern

variable {c : Char} {s : Text}

/-- What an escaped character is read as. -/
def readAs (c : Char) : Term := if c = '\x08' then .boundary false else .literal c

theorem ofEscaped_of_isSign (h : isSign c = true) : Term.ofEscaped c = .literal c :=
  of_contains (p := fun d => Term.ofEscaped d = .literal d) (by decide) h

/-- Letters have the same meaning in strings and in patterns, but for one. -/
theorem ofEscaped_of_mem_letters {l : Char} (h : (l, c) ∈ letters) :
    Term.ofEscaped l = readAs c := by
  have hall : ∀ entry ∈ letters, Term.ofEscaped entry.1 = readAs entry.2 :=
    List.all_iff_forall_prop.mp (by decide)
  exact hall _ h

theorem ofEscape_unit (c : Char) : Term.ofEscape (.unit c.toNat) = .literal c := by
  have hvalid : c.toNat.isValidChar := c.valid
  rw [Term.ofEscape, if_pos hvalid, Char.ofNat_toNat]

/-- A character that needs no escape in patterns stands for itself. -/
theorem ofChar_eq (hregexp : isRegexpSyntax c = false) (hspecial : isSpecial c = false)
    (hback : c ≠ '\\') (hslash : c ≠ '/') : Term.ofChar c = .literal c := by
  have hsyntax : isSyntax c = false :=
    contains_eq_false
      (p := fun d => isRegexpSyntax d = false ∧ isSpecial d = false ∧ d ≠ '\\' ∧ d ≠ '/')
      (by decide) ⟨hregexp, hspecial, hback, hslash⟩
  rw [Term.ofChar, hsyntax]
  rfl

theorem terms_cons (hc : c ≠ '\\') (t : Text) : terms (c :: t) = .ofChar c :: terms t :=
  readWith_cons _ _ hc t

theorem terms_escaped (hc : hexLength? c = none) (t : Text) :
    terms ('\\' :: c :: t) = .ofEscaped c :: terms t :=
  readWith_char _ _ hc t

/-- **What an escaped character is read as**, whatever follows it. -/
theorem terms_escapeRegexpChar_append (c : Char) (t : Text) :
    terms (escapeRegexpChar c ++ t) = readAs c :: terms t := by
  by_cases hborder : c = '\x08'
  · subst hborder
    exact terms_escaped rfl t
  have hread : readAs c = .literal c := if_neg hborder
  generalize hform : escapeRegexpChar c = escaped
  have h := form_escapeRegexpChar c
  rw [hform] at h
  cases h with
  -- what is written as it is has no meaning in a pattern, or it would have been escaped
  | self hspecial hback hslash =>
    have hregexp := (escaped_escapeRegexpChar c).2 hform
    rw [hread, ← ofChar_eq hregexp hspecial hback hslash]
    exact terms_cons hback t
  | sign hsign =>
    rw [hread, ← ofEscaped_of_isSign hsign]
    exact terms_escaped (of_isSign hsign).1 t
  | letter l hl =>
    rw [← ofEscaped_of_mem_letters hl]
    exact terms_escaped (of_mem_letters hl).1 t
  | number x digits hlength hdigits hvalue hunit =>
    have hnumber := readWith_number (fun c => [Term.ofChar c]) (fun e => [Term.ofEscape e])
      hlength hdigits t
    rwa [hvalue, ofEscape_unit, ← hread] at hnumber

/-- **An escaped text is read character by character.** -/
theorem terms_escapeRegexp (hs : s ≠ []) : terms (escapeRegexp s) = s.map readAs := by
  have hempty : s.isEmpty = false := by simpa using hs
  rw [escapeRegexp, hempty]
  show terms (s.flatMap escapeRegexpChar) = s.map readAs
  clear hs hempty
  induction s with
  | nil => exact readWith_nil _ _
  | cons c s ih => rw [List.flatMap_cons, terms_escapeRegexpChar_append, ih, List.map_cons]

/-- Every character is a literal but the one that becomes a word boundary. -/
theorem map_readAs_iff : s.map readAs = s.map .literal ↔ '\x08' ∉ s := by
  rw [List.map_inj_left]
  constructor
  · intro h hmem
    exact absurd (h _ hmem) (by decide)
  · intro h c hc
    exact if_neg fun (e : c = '\x08') => h (e ▸ hc)

/-- **A text is matched literally** if and only if it does not contain U+0008. -/
theorem pattern_matches_itself_iff {s : Text} (hs : s ≠ []) :
    Bytes.escapeRegexp s = some (escapeRegexp s)
      ∧ terms (escapeRegexp s) = s.map readAs
      ∧ (terms (escapeRegexp s) = s.map .literal ↔ '\x08' ∉ s) := by
  have hterms := terms_escapeRegexp hs
  exact ⟨Bytes.escapeRegexp_eq s, hterms, by rw [hterms, map_readAs_iff]⟩

theorem brackets_match_themselves :
    "[1\x01]".toList ≠ [] ∧ terms (escapeRegexp "[1\x01]".toList)
      = [.literal '[', .literal '1', .literal '\x01', .literal ']'] :=
  have hs : "[1\x01]".toList ≠ [] := by decide
  ⟨hs, (pattern_matches_itself_iff hs).2.2.mpr (by decide)⟩

/-- **U+0008 is not matched by its own pattern**, which is the border of a word. -/
theorem backspace_is_a_border :
    ['\x08'] ≠ [] ∧ Bytes.escapeRegexp ['\x08'] = some "\\b".toList
      ∧ terms (escapeRegexp ['\x08']) = [.boundary false]
      ∧ terms (escapeRegexp ['\x08']) ≠ ['\x08'].map .literal := by
  decide +kernel

end SafeMarkup.Js.Pattern
