import SafeMarkup.Proofs.Feed
import SafeMarkup.Proofs.JsForm

/-!
# Escaped text in JS

Escaping writes a character as itself or as a backslash with a letter or sign after it, and digits
after that. The first kind has no meaning inside literals and comments, and the second kind is over
as soon as it has been read. So escaped text leaves the cursor where it is.
-/

namespace SafeMarkup

namespace Js

/-- Is `c` without a meaning in strings, comments and markup? -/
def isPlain (c : Char) : Bool :=
  c != '"' && c != '\'' && c != '\x60' && c != '\\' && c != '/' && c != '<' && c != '\x00'
    && !isLineEnd c

/-- Is `c` neither a `<` nor a NUL nor the end of a line? -/
def isInline (c : Char) : Bool := c != '<' && c != '\x00' && !isLineEnd c

/-- What a character of a string or a pattern is escaped to: itself, or a backslash, a character
that does not end the line, and hexadecimal digits. -/
inductive Escaped (c : Char) (t : Text) : Prop where
  | plain (hc : isPlain c = true) (ht : t = [c])
  | escape (d : Char) (hd : isInline d = true) (digits : Text)
      (hdigits : ∀ e ∈ digits, isHexDigit e = true) (ht : t = '\\' :: d :: digits)

/-- The ends of lines and NUL are special too. -/
theorem isInline_of_isSpecial {c : Char} (h : isSpecial c = false) : isInline c = true := by
  have hne {d : Char} (hd : isSpecial d = true) : c ≠ d := (ne_of_class hd h).symm
  simp only [isInline, isLineEnd, Bool.and_eq_true, Bool.not_eq_true', Bool.or_eq_false_iff,
    bne_iff_ne, beq_eq_false_iff_ne]
  exact ⟨⟨hne (by decide), hne (by decide)⟩,
    ⟨⟨hne (by decide), hne (by decide)⟩, hne (by decide)⟩, hne (by decide)⟩

/-- What needs no escape is no delimiter either. -/
theorem isPlain_of_isSpecial {c : Char} (h : isSpecial c = false) (hback : c ≠ '\\')
    (hslash : c ≠ '/') : isPlain c = true := by
  have hne {d : Char} (hd : isSpecial d = true) : c ≠ d := (ne_of_class hd h).symm
  have hinline := isInline_of_isSpecial h
  simp only [isInline, Bool.and_eq_true] at hinline
  simp only [isPlain, Bool.and_eq_true, bne_iff_ne]
  exact ⟨⟨⟨⟨⟨⟨⟨hne (by decide), hne (by decide)⟩, hne (by decide)⟩, hback⟩, hslash⟩,
    hne (by decide)⟩, hne (by decide)⟩, hinline.2⟩

theorem isPlain_of_isHexDigit {c : Char} (h : isHexDigit c = true) : isPlain c = true :=
  isPlain_of_isSpecial (isSpecial_of_isHexDigit h) (ne_of_class h (by decide))
    (ne_of_class h (by decide))

/-- **Each form is plain or an escape.** -/
theorem Form.escaped {c : Char} {t : Text} (h : Form c t) : Escaped c t := by
  have hinline {d : Char} (hd : d ∈ t) : isInline d = true :=
    isInline_of_isSpecial (h.isSpecial_of_mem hd)
  cases h with
  | self hc hback hslash => exact .plain (isPlain_of_isSpecial hc hback hslash) rfl
  | sign _ => exact .escape c (hinline (by simp)) [] (by simp) rfl
  | letter l _ => exact .escape l (hinline (by simp)) [] (by simp) rfl
  | number x digits _ hdigits _ _ =>
    exact .escape x (hinline (by simp)) digits (List.all_eq_true.mp hdigits) rfl

/-- **What escaping writes for a character in a string.** -/
theorem escaped_escapeStringChar (c : Char) : Escaped c (escapeStringChar c) :=
  (form_escapeStringChar c).escaped

/-- **What escaping writes for a character in a regular expression.** -/
theorem escaped_escapeRegexpChar (c : Char) :
    Escaped c (escapeRegexpChar c) ∧ (escapeRegexpChar c = [c] → isRegexpSyntax c = false) := by
  refine ⟨(form_escapeRegexpChar c).escaped, fun h => ?_⟩
  rw [escapeRegexpChar] at h
  split at h
  · cases h
  · next hc => exact Bool.eq_false_iff.mpr hc

theorem isInline_of_mem_escapeString {t : Text} {c : Char} (hc : c ∈ escapeString t) :
    isInline c = true :=
  isInline_of_isSpecial (isSpecial_of_mem_escapeString hc)

/-- An escaped string stays on its line. -/
theorem isLineEnd_of_mem_escapeString {t : Text} {c : Char} (hc : c ∈ escapeString t) :
    isLineEnd c = false := by
  have hinline := isInline_of_mem_escapeString hc
  simp only [isInline, Bool.and_eq_true, Bool.not_eq_true'] at hinline
  exact hinline.2

/-- An escaped pattern holds no `<`, no NUL and no end of a line. -/
theorem isInline_of_mem_escapeRegexp {t : Text} {c : Char} (hc : c ∈ escapeRegexp t) :
    isInline c = true := by
  unfold escapeRegexp at hc
  split at hc
  · have hall : "(?:)".toList.all isInline = true := by decide
    exact List.all_eq_true.mp hall c hc
  · obtain ⟨d, -, hc⟩ := List.mem_flatMap.mp hc
    exact isInline_of_isSpecial ((form_escapeRegexpChar d).isSpecial_of_mem hc)

end Js

namespace Context

variable {ctx : Context} {c : Char} {t : Text}

theorem hasPartialEscape_of_escaping (h : ctx.flags.escaping = false) :
    ctx.hasPartialEscape = false := by
  rw [hasPartialEscape, h, Bool.false_and]

theorem hasPartialEscape_of_state (h : ctx.state.allowsEscapes = false) :
    ctx.hasPartialEscape = false := by
  rw [hasPartialEscape, h, Bool.and_false]

/-! ### Strings -/

/-- The quote of a string or template literal. -/
def jsQuote? : Js.Mode → Option Char
  | .doubleQuoted => some '"'
  | .singleQuoted => some '\''
  | .template => some '\x60'
  | _ => none

/-- Strings and templates are read alike, up to their own quote. -/
theorem readsString_js {mode : Js.Mode} {quote : Char} (hs : ctx.state = .js mode)
    (hq : jsQuote? mode = some quote) :
    ctx.ReadsString quote (.js .code) (fun _ => false) := by
  intro flags c
  cases mode <;> cases hq <;> simp [feed, hs, feedJs]

theorem allowsEscapes_jsQuote {mode : Js.Mode} {quote : Char} (hq : jsQuote? mode = some quote) :
    (State.js mode).allowsEscapes = true := by
  cases mode <;> first | rfl | cases hq

theorem ne_of_isPlain {mode : Js.Mode} {quote : Char} (hq : jsQuote? mode = some quote)
    (hc : Js.isPlain c = true) : c ≠ '\\' ∧ c ≠ quote ∧ false = false := by
  cases mode <;> cases hq <;> simp_all [Js.isPlain]

/-- **Escaped text leaves the cursor in the string where it was.** -/
theorem feedAll_escapeString {mode : Js.Mode} {quote : Char} (hs : ctx.state = .js mode)
    (hq : jsQuote? mode = some quote) (he : ctx.flags.escaping = false) (t : Text) :
    ctx.feedAll (Js.escapeString t) = ctx := by
  have hr := readsString_js hs hq
  refine feedAll_flatMap fun c _ => ?_
  cases Js.escaped_escapeStringChar c with
  | plain hc ht =>
    rw [ht]
    exact feedAll_plain hr he (by simpa using ne_of_isPlain hq hc)
  | escape d hd digits hdigits ht =>
    rw [ht]
    exact feedAll_escape hr he d fun e he =>
      ne_of_isPlain hq (Js.isPlain_of_isHexDigit (hdigits e he))

/-! ### Comments -/

theorem feed_lineComment (hs : ctx.state = .js .lineComment) (hc : Js.isLineEnd c = false) :
    ctx.feed c = ctx := by
  simp [feed, hs, feedJs, hc]

theorem feedAll_lineComment (hs : ctx.state = .js .lineComment)
    (ht : ∀ c ∈ t, Js.isLineEnd c = false) : ctx.feedAll t = ctx := by
  induction t with
  | nil => rfl
  | cons c t ih =>
    rw [feedAll_cons, feed_lineComment hs (ht c List.mem_cons_self)]
    exact ih fun d hd => ht d (List.mem_cons_of_mem c hd)

/-- A `/` is written with a backslash before it, so it does not come after a `*`. -/
theorem feedAll_blockComment_escapeString (hs : ctx.state = .js .blockComment) (t : Text) :
    ctx.feedAll (Js.escapeString t) = ctx.withStar (ctx.endsInStar (Js.escapeString t)) := by
  have slash {d : Char} (hd : Js.isPlain d = true) : '/' ≠ d := (ne_of_class hd rfl).symm
  induction t generalizing ctx with
  | nil => rfl
  | cons c t ih =>
    have hchar : ctx.feedAll (Js.escapeString [c])
        = ctx.withStar (ctx.endsInStar (Js.escapeString [c])) := by
      rw [show Js.escapeString [c] = Js.escapeStringChar c by simp [Js.escapeString]]
      cases Js.escaped_escapeStringChar c with
      | plain hc ht =>
        rw [ht]
        exact feedAll_blockComment (Or.inl hs) (by simpa using slash hc)
      | escape d hd digits hdigits ht =>
        -- the backslash is no star, so the character after it does not end the comment
        have hdigits' : '/' ∉ digits :=
          fun hmem => slash (Js.isPlain_of_isHexDigit (hdigits _ hmem)) rfl
        rw [ht, feedAll_cons, feedAll_cons,
          feed_blockComment (c := '\\') (Or.inl hs) (Or.inl (by decide)),
          feed_blockComment (Or.inl ((withStar_state _).trans hs))
            (Or.inr (withStar_afterStar ('\\' == '*'))), withStar_withStar,
          feedAll_blockComment (Or.inl ((withStar_state _).trans hs)) hdigits', withStar_withStar,
          endsInStar_cons, endsInStar_cons, withStar_withStar]
    -- one character after the other, each where the one before it has left the comment
    rw [← List.singleton_append, Js.escapeString_append, feedAll_append, endsInStar_append, hchar,
      ih ((withStar_state _).trans hs), withStar_withStar]

/-! ### Regular expressions -/

/-- In a pattern a character is read by the rules of patterns. -/
theorem feed_eq_regexp (ctx : Context) (hs : ctx.state = .js .regexp) (c : Char) :
    ctx.feed c = ctx.feedJsRegexp c := by
  simp only [feed]
  rw [hs]
  rfl

/-- A regular expression goes on as long as there is nothing that matters in it. -/
theorem feed_regexp (hs : ctx.state = .js .regexp) (he : ctx.flags.escaping = false)
    (hc : Js.isPlain c = true) (hregexp : Js.isRegexpSyntax c = false) : ctx.feed c = ctx := by
  simp_all [feed, feedJs, feedJsRegexp, Js.isPlain, Js.isRegexpSyntax]

/-- The digits of an escape mean nothing in a pattern. -/
theorem feedAll_regexp_digits (hs : ctx.state = .js .regexp) (he : ctx.flags.escaping = false)
    (ht : ∀ c ∈ t, isHexDigit c = true) : ctx.feedAll t = ctx := by
  induction t with
  | nil => rfl
  | cons c t ih =>
    have hc := ht c List.mem_cons_self
    -- no character with a meaning in patterns is a digit
    have hregexp : Js.isRegexpSyntax c = false := by
      have hne {d : Char} (hd : isHexDigit d = false) : c ≠ d := ne_of_class hc hd
      simp only [Js.isRegexpSyntax, Bool.or_eq_false_iff, beq_eq_false_iff_ne]
      exact ⟨⟨⟨⟨⟨⟨⟨⟨⟨⟨⟨⟨hne (by decide), hne (by decide)⟩, hne (by decide)⟩, hne (by decide)⟩,
        hne (by decide)⟩, hne (by decide)⟩, hne (by decide)⟩, hne (by decide)⟩, hne (by decide)⟩,
        hne (by decide)⟩, hne (by decide)⟩, hne (by decide)⟩, hne (by decide)⟩
    rw [feedAll_cons, feed_regexp hs he (Js.isPlain_of_isHexDigit hc) hregexp]
    exact ih fun d hd => ht d (List.mem_cons_of_mem c hd)

theorem feed_regexp_backslash (hs : ctx.state = .js .regexp) (he : ctx.flags.escaping = true) :
    ctx.feed '\\' = { ctx with flags := { ctx.flags with escaping := false } } := by
  simp [feed, hs, feedJs, feedJsRegexp, he]

/-- **Escaped text leaves the cursor in the regular expression where it was.** -/
theorem feedAll_escapeRegexp (hs : ctx.state = .js .regexp) (he : ctx.flags.escaping = false)
    (t : Text) : ctx.feedAll (Js.escapeRegexp t) = ctx := by
  unfold Js.escapeRegexp
  split
  · -- the empty pattern becomes a group, which leaves no flag behind
    simp [feed, hs, feedJs, feedJsRegexp, he, Js.isLineEnd]
  refine feedAll_flatMap fun c _ => ?_
  have hescaped := Js.escaped_escapeRegexpChar c
  cases hescaped.1 with
  | plain hc ht =>
    rw [ht]
    exact feed_regexp hs he hc (hescaped.2 ht)
  | escape d hd digits hdigits ht =>
    -- the backslash opens an escape, and the next character closes it
    have hback : ctx.feed '\\' = { ctx with flags := { ctx.flags with escaping := true } } := by
      rw [feed_eq_regexp ctx hs]
      simp [feedJsRegexp, he]
    have hnext : feed { ctx with flags := { ctx.flags with escaping := true } } d = ctx := by
      rw [feed_eq_regexp { ctx with flags := { ctx.flags with escaping := true } } hs]
      simp only [feedJsRegexp, ↓reduceIte]
      exact flags_eq_of_escaping he
    rw [ht, feedAll_cons, feedAll_cons, hback, hnext]
    exact feedAll_regexp_digits hs he hdigits

/-- Escaped text is not empty, and does not turn the `/` before it into the start of a comment. -/
theorem exists_cons_escapeRegexp (t : Text) :
    ∃ c rest, Js.escapeRegexp t = c :: rest ∧ c ≠ '/' ∧ c ≠ '*' := by
  rcases t with _ | ⟨c, t⟩
  · exact ⟨'(', "?:)".toList, rfl, by decide, by decide⟩
  · simp only [Js.escapeRegexp, List.isEmpty_cons, Bool.false_eq_true, ↓reduceIte,
      List.flatMap_cons]
    have hescaped := Js.escaped_escapeRegexpChar c
    cases hescaped.1 with
    | plain hc ht =>
      have hregexp := hescaped.2 ht
      rw [ht]
      exact ⟨c, _, rfl, fun e => by simp [e, Js.isPlain] at hc,
        fun e => by simp [e, Js.isRegexpSyntax] at hregexp⟩
    | escape d hd digits hdigits ht =>
      rw [ht]
      exact ⟨'\\', _, rfl, by decide, by decide⟩

/-- A `/` is the start of a regular expression once it is clear that it starts no comment. -/
theorem feedAll_slash_regexp (hs : ctx.state = .js .slash) (hslash : ctx.slash = .regexp)
    (hc : c ≠ '/') (hc' : c ≠ '*') :
    ctx.feedAll (c :: t) = feedAll { ctx with state := .js .regexp } (c :: t) := by
  rw [feedAll_cons, feedAll_cons]
  congr 1
  simp [feed, hs, feedJs, feedJsSlash, hc, hc', hslash]

/-- A `/` after an operand is a division, and code follows it. -/
theorem feedAll_slash_division (hs : ctx.state = .js .slash) (hslash : ctx.slash = .division)
    (hc : c ≠ '/') (hc' : c ≠ '*') :
    ctx.feedAll (c :: t)
      = feedAll { ctx with state := .js .code, slash := .regexp, lastChar := '/' } (c :: t) := by
  rw [feedAll_cons, feedAll_cons]
  congr 1
  simp [feed, hs, feedJs, feedJsSlash, hc, hc', hslash]

end Context

end SafeMarkup
