import SafeMarkup.Css.Unescape
import SafeMarkup.Proofs.CssEscape

/-!
# Escaped CSS is read back

How far an escape goes depends on what follows it. Six digits are all that it can take, and where it
has fewer, no digit comes next: a space is written before a digit, before whitespace, and at the end
of the text, and what else comes next is a character that stands for itself or the next backslash.
The one space is taken for a part of the escape (`readEscape_append`). So what is read is the text,
and after it what is read of whatever follows (`unescape_escape_append`).
-/

namespace SafeMarkup.Css

open Html.CharRef (ofCodePoint value)
open Text (ofNatHex)

variable {c : Char} {s t : Text}

/-- NUL cannot be written in CSS. -/
def decoded (c : Char) : Char := if c = '\x00' then '\ufffd' else c

/-- The code point of a character names that character, or replaces NUL. -/
theorem ofCodePoint_toNat (c : Char) : ofCodePoint c.toNat = decoded c := by
  have hvalid : c.toNat.isValidChar := c.valid
  unfold ofCodePoint decoded
  by_cases hnul : c = '\x00'
  · subst hnul
    rfl
  · have hcode : c.toNat ≠ 0 := fun h => hnul (Char.toNat_inj.mp h)
    rw [if_pos ⟨hcode, hvalid⟩, if_neg hnul, Char.ofNat_toNat]

/-! ### One escape -/

/-- Does the text start with neither a digit nor whitespace? -/
def closes : Text → Bool
  | [] => false
  | c :: _ => !(isHexDigit c || isHtmlSpace c)

/-- The digits of an escape end at the first character that is none. -/
theorem moreDigits_append {digits : Text} (hhex : ∀ d ∈ digits, isHexDigit d = true)
    (hlength : digits.length ≤ 5) (hc : isHexDigit c = false) :
    moreDigits (digits ++ c :: t) = digits := by
  rw [moreDigits, List.take_append, List.take_of_length_le hlength,
    List.takeWhile_append_of_pos hhex]
  cases 5 - digits.length with
  | zero => simp
  | succ n => simp [hc]

/-- **An escape is read up to what closes it**, a space of its own or what comes next. -/
theorem readEscape_append {d : Char} {digits space : Text}
    (hhex : ∀ e ∈ d :: digits, isHexDigit e = true) (hlength : digits.length ≤ 5)
    (hspace : space = [' '] ∨ space = [] ∧ closes t = true) :
    readEscape d (digits ++ (space ++ t)) = (ofCodePoint (value 16 (d :: digits)), t) := by
  have hdigits : ∀ e ∈ digits, isHexDigit e = true := fun e he =>
    hhex e (List.mem_cons_of_mem d he)
  rw [readEscape, if_pos (hhex d List.mem_cons_self)]
  -- a space that belongs to the escape, or a character that cannot go on with it
  rcases hspace with rfl | ⟨rfl, hcloses⟩
  · rw [List.singleton_append, moreDigits_append hdigits hlength (by decide), List.drop_left]
    rfl
  · cases t with
    | nil => cases hcloses
    | cons c t =>
      simp only [closes, Bool.not_eq_true', Bool.or_eq_false_iff] at hcloses
      rw [List.nil_append, moreDigits_append hdigits hlength hcloses.1, List.drop_left, dropSpace,
        hcloses.2]
      rfl

/-! ### Escaped text -/

/-- What follows an escape is not read as a part of it. -/
theorem closes_escape_append (h : needsSpace s = false) (t : Text) :
    closes (escape s ++ t) = true := by
  cases s with
  | nil => cases h
  | cons c s =>
    rcases escape_cons c s with ⟨-, heq⟩ | ⟨d, digits, space, heq, -⟩
    · rw [heq, List.cons_append, closes]
      exact congrArg (!·) h
    · rw [heq]
      rfl

/-- What is written for a character is read as this character. -/
theorem unescape_code (c : Char) {space : Text}
    (hspace : space = [' '] ∨ space = [] ∧ closes t = true) :
    unescape ('\\' :: (ofNatHex c.toNat ++ (space ++ t))) = decoded c :: unescape t := by
  have hvalue : value 16 (ofNatHex c.toNat) = c.toNat := Text.value_ofNatHex _
  have hlength := Text.length_ofNatHex_le c
  have hhex : ∀ e ∈ ofNatHex c.toNat, isHexDigit e = true := fun e => Text.isHexDigit_ofNatHex
  cases hdigits : ofNatHex c.toNat with
  | nil => exact absurd hdigits (Text.ofNatHex_ne_nil _)
  | cons d digits =>
    rw [hdigits] at hvalue hlength hhex
    rw [List.cons_append, unescape_backslash,
      readEscape_append hhex (Nat.le_of_succ_le_succ hlength) hspace, hvalue, ofCodePoint_toNat]

/-- Escaped text is read back, whatever follows. -/
theorem unescape_escape_append (s t : Text) :
    unescape (escape s ++ t) = s.map decoded ++ unescape t := by
  induction s with
  | nil => rfl
  | cons c s ih =>
    rw [List.map_cons, List.cons_append, ← ih, escape]
    split
    · next hsafe =>
      have hback : c ≠ '\\' := ne_of_class hsafe (by decide)
      have hnul : c ≠ '\x00' := ne_of_class hsafe (by decide)
      rw [List.cons_append, unescape_cons hback, decoded, if_neg hnul]
    · simp only [List.append_assoc, List.cons_append, List.nil_append]
      -- the space is left out only where nothing goes on with the digits
      refine unescape_code c ?_
      split
      · exact .inl rfl
      · next h => exact .inr ⟨rfl, closes_escape_append (Bool.eq_false_iff.mpr h) t⟩

/-! ### The shape of escaped text -/

/-- Only letters, digits, `-`, `_`, backslashes and spaces, and a digit after every backslash. -/
structure WellEscaped (t : Text) : Prop where
  plain : ∀ c ∈ t, c.isAlphanum = true ∨ c = '-' ∨ c = '_' ∨ c = '\\' ∨ c = ' '
  digit : ∀ rest, '\\' :: rest <:+ t → ∃ d more, rest = d :: more ∧ isHexDigit d = true

/-- A suffix that starts with another character than those of `a` starts after `a`. -/
theorem suffix_of_suffix_append {a rest : Text} (ha : ∀ e ∈ a, e ≠ c)
    (h : c :: rest <:+ a ++ t) : c :: rest <:+ t := by
  induction a with
  | nil => exact h
  | cons e a ih =>
    obtain ⟨he, ha⟩ := List.forall_mem_cons.mp ha
    rcases List.suffix_cons_iff.mp h with heq | h
    · exact absurd (List.cons.inj heq).1.symm he
    · exact ih ha h

/-- Escaped text has no character with a meaning in a string, and digits after each backslash. -/
theorem wellEscaped_escape (s : Text) : WellEscaped (escape s) where
  plain := by
    intro c hc
    have h := isEscaped_of_mem_escape hc
    simpa [isEscaped, isSafe, or_assoc] using h
  digit := by
    induction s with
    | nil => intro rest h; simp [escape] at h
    | cons c s ih =>
      intro rest h
      -- the first character is written as it is, or as digits and a space
      rcases escape_cons c s with ⟨hsafe, heq⟩ | ⟨d, digits, space, heq, hdigits, hspace⟩
      · rw [heq] at h
        rcases List.suffix_cons_iff.mp h with hfirst | h
        · rw [← (List.cons.inj hfirst).1] at hsafe
          exact absurd hsafe (by decide)
        · exact ih rest h
      · rw [heq, List.cons_append] at h
        rcases List.suffix_cons_iff.mp h with hfirst | h
        · exact ⟨d, _, (List.cons.inj hfirst).2, hdigits d List.mem_cons_self⟩
        · -- no other character of the escape is a backslash
          refine ih rest (suffix_of_suffix_append (fun e he => ?_) h)
          simp only [List.mem_cons, List.mem_append] at he
          rcases he with rfl | he | he
          · exact ne_of_class (hdigits _ List.mem_cons_self) (by decide)
          · exact ne_of_class (hdigits e (List.mem_cons_of_mem _ he)) (by decide)
          · rw [hspace e he]
            decide

/-- **Escaping for CSS is undone by reading the text**, whatever follows, but for NUL. -/
theorem escaped_css_is_read_back (s : Text) :
    (∀ t, unescape (escape s ++ t) = s.map decoded ++ unescape t) ∧ WellEscaped (escape s) :=
  ⟨unescape_escape_append s, wellEscaped_escape s⟩

end SafeMarkup.Css
