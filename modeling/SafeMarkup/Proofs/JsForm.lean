import Mathlib.Data.Bool.AllAny
import SafeMarkup.Js.Escape
import SafeMarkup.Js.Unescape
import SafeMarkup.Proofs.HexNumeral

/-!
# How characters are written in JS

Escaping writes a character as itself, after a backslash, as a letter after a backslash, or by its
number. All that is known about escaped text in JS follows from these four forms, so this is the one
place that looks at the single replacements (`form_escapeStringChar`, `form_escapeRegexpChar`).
-/

namespace SafeMarkup.Js

open Html.CharRef (value)

variable {c : Char} {t : Text}

/-! ### Lists of characters -/

section Contains

variable {p : Char → Prop} [DecidablePred p] {chars : Text}

/-- What holds of all the characters of a list. -/
theorem of_contains (hall : (chars.all fun d => p d) = true) (hc : chars.contains c = true) : p c :=
  List.all_iff_forall_prop.mp hall c (List.contains_iff_mem.mp hc)

theorem contains_eq_false (hall : (chars.all fun d => ¬ p d) = true) (hc : p c) :
    chars.contains c = false :=
  Bool.eq_false_iff.mpr fun h => of_contains hall h hc

end Contains

/-! ### The forms -/

/-- The letters that are written after a backslash, and what they stand for. -/
def letters : List (Char × Char) :=
  [('b', '\x08'), ('f', '\x0c'), ('n', '\n'), ('r', '\r'), ('t', '\t')]

/-- Is `c` a sign that stands for itself after a backslash? -/
def isSign (c : Char) : Bool := "\\/.*+?^\x7b\x7d()[]|-".toList.contains c

/-- The characters that must not stand in escaped text: quotes, the characters with a meaning in
markup, the `$` of a substitution, the ends of lines and the other controls. -/
def isSpecial (c : Char) : Bool := "\"'\x60<>&=$\u2028\u2029".toList.contains c || isControl c

/-- A character can be written as itself, after a backslash, as a letter after a backslash, or by
its number. -/
inductive Form (c : Char) : Text → Prop where
  | self (h : isSpecial c = false) (hback : c ≠ '\\') (hslash : c ≠ '/') : Form c [c]
  | sign (h : isSign c = true) : Form c ['\\', c]
  | letter (l : Char) (h : (l, c) ∈ letters) : Form c ['\\', l]
  | number (x : Char) (digits : Text) (hlength : hexLength? x = some digits.length)
      (hdigits : digits.all isHexDigit = true) (hvalue : value 16 digits = c.toNat)
      (hunit : c.toNat < 0x10000) : Form c ('\\' :: x :: digits)

/-- Control characters have four digits at most. -/
theorem toNat_lt_of_isControl (h : isControl c = true) : c.toNat < 0x10000 := by
  have hcode : c.toNat = c.val.toNat := rfl
  simp only [isControl, Bool.or_eq_true, Bool.and_eq_true, decide_eq_true_eq,
    UInt32.lt_iff_toNat_lt, UInt32.le_iff_toNat_le] at h
  have hlow : (0x20 : UInt32).toNat = 0x20 := rfl
  have hhigh : (0x9f : UInt32).toNat = 0x9f := rfl
  omega

/-- **How a character is written in a string.** -/
theorem form_escapeStringChar (c : Char) : Form c (escapeStringChar c) := by
  cases hr : replacement? c with
  | some escaped =>
    rw [escapeStringChar, hr]
    unfold replacement? at hr
    split at hr <;> cases hr
    all_goals
      first
      | exact .sign (by decide)
      | exact .letter _ (by decide)
      | exact .number _ _ rfl (by decide) (by decide) (by decide)
  | none =>
    simp only [escapeStringChar, hr]
    split
    · next hcontrol =>
      have hunit := toNat_lt_of_isControl hcontrol
      exact .number 'u' _ rfl (List.all_eq_true.mpr fun d hd => Text.isHexDigit_ofNatHex4 hd)
        (Text.value_ofNatHex4 hunit) hunit
    · next hcontrol =>
      -- the characters that must not stand there are all replaced
      have hne {d : Char} (hd : replacement? d ≠ none) : c ≠ d := fun e => hd (e ▸ hr)
      refine .self ?_ (hne (by decide)) (hne (by decide))
      rw [isSpecial, Bool.or_eq_false_iff]
      exact ⟨contains_eq_false (p := (replacement? · = none)) (by decide) hr,
        Bool.eq_false_iff.mpr hcontrol⟩

theorem isSign_of_isRegexpSyntax (h : isRegexpSyntax c = true) : isSign c = true := by
  simp only [isRegexpSyntax, Bool.or_eq_true, beq_iff_eq] at h
  rcases h with (((((((((((rfl | rfl) | rfl) | rfl) | rfl) | rfl) | rfl) | rfl) | rfl) | rfl)
    | rfl) | rfl) | rfl <;> rfl

/-- **How a character is written in a regular expression.** -/
theorem form_escapeRegexpChar (c : Char) : Form c (escapeRegexpChar c) := by
  rw [escapeRegexpChar]
  split
  · next h => exact .sign (isSign_of_isRegexpSyntax h)
  · exact form_escapeStringChar c

/-! ### The characters of a form -/

theorem of_isSign (h : isSign c = true) :
    hexLength? c = none ∧ letterValue c = c ∧ isSpecial c = false :=
  of_contains (p := fun d => hexLength? d = none ∧ letterValue d = d ∧ isSpecial d = false)
    (by decide) h

/-- A letter of the table stands for its control character. -/
theorem of_mem_letters {l : Char} (h : (l, c) ∈ letters) :
    hexLength? l = none ∧ letterValue l = c ∧ isSpecial l = false := by
  have hall : ∀ entry ∈ letters,
      hexLength? entry.1 = none ∧ letterValue entry.1 = entry.2 ∧ isSpecial entry.1 = false :=
    List.all_iff_forall_prop.mp (by decide)
  exact hall _ h

/-- The letters before digits need no escape. -/
theorem isSpecial_of_hexLength? {x : Char} {n : Nat} (h : hexLength? x = some n) :
    isSpecial x = false := by
  unfold hexLength? at h
  split at h
  · decide
  · decide
  · cases h

/-- Digits are no control characters. -/
theorem isControl_of_isHexDigit (h : isHexDigit c = true) : isControl c = false := by
  -- the bounds as numbers, for the arithmetic below
  have hdigit : '0'.val.toNat = 48 ∧ '9'.val.toNat = 57 := ⟨rfl, rfl⟩
  have hlower : 'a'.val.toNat = 97 ∧ 'f'.val.toNat = 102 := ⟨rfl, rfl⟩
  have hupper : 'A'.val.toNat = 65 ∧ 'F'.val.toNat = 70 := ⟨rfl, rfl⟩
  have hspace : (0x20 : UInt32).toNat = 0x20 := rfl
  have hdelete : (0x7f : UInt32).toNat = 0x7f := rfl
  simp only [isHexDigit, Char.isDigit, Bool.or_eq_true, Bool.and_eq_true, decide_eq_true_eq,
    ge_iff_le, Char.le_def, UInt32.le_iff_toNat_le] at h
  simp only [isControl, Bool.or_eq_false_iff, Bool.and_eq_false_iff, decide_eq_false_iff_not,
    UInt32.lt_iff_toNat_lt, UInt32.le_iff_toNat_le]
  omega

theorem isSpecial_of_isHexDigit (h : isHexDigit c = true) : isSpecial c = false := by
  rw [isSpecial, isControl_of_isHexDigit h, Bool.or_false]
  exact contains_eq_false (p := (isHexDigit · = true)) (by decide) h

/-- **Nothing special is written.** -/
theorem Form.isSpecial_of_mem (h : Form c t) {d : Char} (hd : d ∈ t) : isSpecial d = false := by
  have hback : isSpecial '\\' = false := by decide
  cases h with
  | self hc _ _ => rwa [List.mem_singleton.mp hd]
  | sign hsign =>
    have hmem : d = '\\' ∨ d = c := by simpa using hd
    rcases hmem with rfl | rfl
    · exact hback
    · exact (of_isSign hsign).2.2
  | letter l hl =>
    have hmem : d = '\\' ∨ d = l := by simpa using hd
    rcases hmem with rfl | rfl
    · exact hback
    · exact (of_mem_letters hl).2.2
  | number x digits hlength hdigits _ _ =>
    -- the backslash, the letter and then the digits
    rcases List.mem_cons.mp hd with rfl | hd
    · exact hback
    rcases List.mem_cons.mp hd with rfl | hd
    · exact isSpecial_of_hexLength? hlength
    · exact isSpecial_of_isHexDigit (List.all_eq_true.mp hdigits d hd)

theorem isSpecial_of_mem_escapeString (h : c ∈ escapeString t) : isSpecial c = false := by
  obtain ⟨d, -, hc⟩ := List.mem_flatMap.mp h
  exact (form_escapeStringChar d).isSpecial_of_mem hc

end SafeMarkup.Js
