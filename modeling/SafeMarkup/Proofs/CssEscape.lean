import SafeMarkup.Css.Escape
import SafeMarkup.Proofs.CharRef
import SafeMarkup.Proofs.JsEscape

/-!
# Escaped text in CSS

Escaped text consists of letters, digits, `-`, `_`, backslashes and spaces. None of them ends
anything in CSS, and the hexadecimal digits after a backslash are over before the next backslash. So
escaped text leaves the cursor where it is.
-/

namespace SafeMarkup

namespace Css

/-- May `c` occur in escaped text? -/
def isEscaped (c : Char) : Bool := isSafe c || c == '\\' || c == ' '

theorem isSafe_of_isHexDigit {c : Char} (h : isHexDigit c = true) : isSafe c = true := by
  simp [isSafe, Html.CharRef.isAlphanum_of_isHexDigit h]

/-- What is written for a character: the character, or its code point and maybe a space. -/
theorem escape_cons (c : Char) (t : Text) :
    (isSafe c = true ∧ escape (c :: t) = c :: escape t)
      ∨ ∃ d digits space, escape (c :: t) = '\\' :: d :: (digits ++ space) ++ escape t
        ∧ (∀ e ∈ d :: digits, isHexDigit e = true) ∧ ∀ e ∈ space, e = ' ' := by
  simp only [escape]
  split
  · next hc => exact Or.inl ⟨hc, rfl⟩
  · right
    -- the code point in hexadecimal, and a space if what follows could be a digit
    have hdigits : ∀ e ∈ Text.ofNatHex c.toNat, isHexDigit e = true := fun e he =>
      Text.isHexDigit_ofNatHex he
    cases hhex : Text.ofNatHex c.toNat with
    | nil => exact absurd hhex Nat.toDigits_ne_nil
    | cons d digits =>
      rw [hhex] at hdigits
      refine ⟨d, digits, if needsSpace t then [' '] else [], by simp, hdigits, ?_⟩
      split <;> simp

/-- **Escaped text consists of few characters.** -/
theorem isEscaped_of_mem_escape {t : Text} {c : Char} (h : c ∈ escape t) : isEscaped c = true := by
  induction t with
  | nil => cases h
  | cons d t ih =>
    -- the first character as it is, or a backslash, digits and a space
    rcases escape_cons d t with ⟨hd, heq⟩ | ⟨e, digits, space, heq, hdigits, hspace⟩
    · rw [heq] at h
      rcases List.mem_cons.mp h with rfl | h
      · simp [isEscaped, hd]
      · exact ih h
    · simp only [heq, List.mem_append, List.mem_cons] at h
      rcases h with (rfl | rfl | h | h) | h
      · rfl
      · simp [isEscaped, isSafe_of_isHexDigit (hdigits _ List.mem_cons_self)]
      · simp [isEscaped, isSafe_of_isHexDigit (hdigits c (List.mem_cons_of_mem _ h))]
      · simp [isEscaped, hspace c h]
      · exact ih h

theorem escape_ne_nil {t : Text} (h : t ≠ []) : escape t ≠ [] := by
  rcases t with _ | ⟨c, t⟩
  · exact absurd rfl h
  · rcases escape_cons c t with ⟨-, heq⟩ | ⟨d, digits, space, heq, -⟩ <;> simp [heq]

end Css

namespace Context

variable {ctx : Context} {c : Char} {t : Text}

/-! ### Strings -/

/-- The quote of a string. -/
def cssQuote? : Css.Mode → Option Char
  | .doubleQuoted => some '"'
  | .singleQuoted => some '\''
  | _ => none

theorem readsString_css {mode : Css.Mode} {quote : Char} (hs : ctx.state = .css mode)
    (hq : cssQuote? mode = some quote) : ctx.ReadsString quote (.css .code) Css.isLineEnd := by
  intro flags c
  cases mode <;> cases hq <;> simp [feed, hs, feedCss]

/-- Letters, digits and spaces do not matter in a string. -/
theorem ne_of_isSafe {mode : Css.Mode} {quote : Char} (hq : cssQuote? mode = some quote)
    (hc : Css.isSafe c = true ∨ c = ' ') : c ≠ '\\' ∧ c ≠ quote ∧ Css.isLineEnd c = false := by
  have hne {d : Char} (hd : Css.isSafe d = false) (hd' : d ≠ ' ') : c ≠ d := by
    rintro rfl
    rcases hc with hc | hc
    · rw [hc] at hd; cases hd
    · exact hd' hc
  refine ⟨hne (by decide) (by decide), ?_, ?_⟩
  · cases mode <;> cases hq <;> exact hne (by decide) (by decide)
  · simp only [Css.isLineEnd, Bool.or_eq_false_iff, beq_eq_false_iff_ne]
    exact ⟨⟨hne (by decide) (by decide), hne (by decide) (by decide)⟩,
      hne (by decide) (by decide)⟩

/-- **Escaped text leaves the cursor in the string where it was.** -/
theorem feedAll_cssEscape {mode : Css.Mode} {quote : Char} (hs : ctx.state = .css mode)
    (hq : cssQuote? mode = some quote) (he : ctx.flags.escaping = false) (t : Text) :
    ctx.feedAll (Css.escape t) = ctx := by
  have hr := readsString_css hs hq
  induction t with
  | nil => rfl
  | cons c t ih =>
    rcases Css.escape_cons c t with ⟨hc, heq⟩ | ⟨d, digits, space, heq, hdigits, hspace⟩
    · have hstep : ctx.feedAll [c] = ctx :=
        feedAll_plain hr he (by simpa using ne_of_isSafe hq (Or.inl hc))
      rw [heq, ← List.singleton_append, feedAll_append, hstep, ih]
    · rw [heq, feedAll_append, feedAll_escape hr he, ih]
      -- neither the digits nor the space end the string
      intro e he
      rcases List.mem_append.mp he with he | he
      · exact ne_of_isSafe hq
          (Or.inl (Css.isSafe_of_isHexDigit (hdigits e (List.mem_cons_of_mem d he))))
      · exact ne_of_isSafe hq (Or.inr (hspace e he))

/-! ### Code and comments -/

/-- In code no character of an escaped text opens anything. -/
theorem feed_cssCode (hs : ctx.state = .css .code) (hc : Css.isEscaped c = true) :
    (ctx.feed c).state = .css .code := by
  have hne {d : Char} (hd : Css.isEscaped d = false) : c ≠ d := ne_of_class hc hd
  simp [feed, hs, feedCss, feedCssCode, hne (show Css.isEscaped '"' = false by decide),
    hne (show Css.isEscaped '\'' = false by decide), hne (show Css.isEscaped '/' = false by decide),
    hne (show Css.isEscaped '(' = false by decide)]

/-- An escaped text leaves the cursor in the code. -/
theorem feedAll_cssCode (hs : ctx.state = .css .code) (ht : ∀ c ∈ t, Css.isEscaped c = true) :
    (ctx.feedAll t).state = .css .code := by
  induction t generalizing ctx with
  | nil => exact hs
  | cons c t ih =>
    have ht' := List.forall_mem_cons.mp ht
    exact ih (feed_cssCode hs ht'.1) ht'.2

/-- A `/` that no comment starts with was a part of the code. -/
theorem feedAll_cssSlash (hs : ctx.state = .css .slash) (ht : ∀ c ∈ t, Css.isEscaped c = true)
    (hne : t ≠ []) : (ctx.feedAll t).state = .css .code := by
  rcases t with _ | ⟨c, t⟩
  · exact absurd rfl hne
  have ht' := List.forall_mem_cons.mp ht
  -- the slash opens no comment, so the character is read as code
  have hstep : ctx.feed c = feed { ctx with state := .css .code } c := by
    simp [feed, hs, feedCss, feedCssSlash,
      ne_of_class ht'.1 (show Css.isEscaped '*' = false by decide),
      ne_of_class ht'.1 (show Css.isEscaped '/' = false by decide)]
  rw [feedAll_cons, hstep]
  exact feedAll_cssCode (feed_cssCode rfl ht'.1) ht'.2

theorem feedAll_cssLineComment (hs : ctx.state = .css .lineComment)
    (ht : ∀ c ∈ t, Css.isEscaped c = true) : ctx.feedAll t = ctx := by
  induction t with
  | nil => rfl
  | cons c t ih =>
    have ht' := List.forall_mem_cons.mp ht
    have hline : Css.isLineEnd c = false := by
      simp only [Css.isLineEnd, Bool.or_eq_false_iff, beq_eq_false_iff_ne]
      exact ⟨⟨ne_of_class ht'.1 (by decide), ne_of_class ht'.1 (by decide)⟩,
        ne_of_class ht'.1 (by decide)⟩
    have hstep : ctx.feed c = ctx := by simp [feed, hs, feedCss, hline]
    rw [feedAll_cons, hstep]
    exact ih ht'.2

end Context

end SafeMarkup
