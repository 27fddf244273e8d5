import SafeMarkup.Proofs.JsEscape
import SafeMarkup.Proofs.ReachableContext

/-!
# Slashes after whitespace and comments

Between the tokens of JS code there is whitespace, and there are comments. A comment starts with a
`/`, which could as well be a division or the start of a regular expression; its text can be full of
slashes and stars. None of this matters for what a `/` after it is (`slash_after_blanks`). A
character of whitespace and a whole comment leave the context as it was, but for the word before the
cursor and the last character (`feedAll_blank`), and the next `/` takes neither into account.
-/

namespace SafeMarkup

namespace Js

/-- A piece of code without tokens: a character of whitespace, or a whole comment. -/
inductive Blank : Text → Prop where
  | space (c : Char) (hc : isSpace c = true) : Blank [c]
  | blockComment (body : Text) (hbody : ¬ ['*', '/'] <:+: body) :
      Blank (['/', '*'] ++ body ++ ['*', '/'])
  | lineComment (body : Text) (hbody : ∀ c ∈ body, isLineEnd c = false) (c : Char)
      (hc : isLineEnd c = true) : Blank (['/', '/'] ++ body ++ [c])

end Js

namespace Context

variable {ctx : Context} {c : Char} {t : Text}

/-! ### One piece -/

/-- A space ends the word before it and is remembered. -/
theorem feed_space (hs : ctx.state = .js .code) (hc : Js.isSpace c = true) :
    ctx.feed c = { ctx with word := .empty, lastChar := remembered c } := by
  have hne {d : Char} (hd : Js.isSpace d = false) : c ≠ d := ne_of_class hc hd
  simp [feed, hs, feedJs, feedJsCode, afterJsChar, hc, Js.isWordChar_of_isSpace hc,
    hne (d := '"') rfl, hne (d := '\'') rfl, hne (d := '\x60') rfl, hne (d := '/') rfl]

/-- Whatever was read before a `/`, only what the `/` is matters after it. -/
theorem feed_slash (hs : ctx.state = .js .code) :
    ctx.feed '/' = { ctx with state := .js .slash, word := .empty, lastChar := '/' } := by
  have hword : Js.isWordChar '/' = false := by decide
  simp [feed, hs, feedJs, feedJsCode, afterJsChar, hword, remembered, isAscii]

/-- The second character decides that it is a comment, before it matters what else a `/` is. -/
theorem feedAll_openComment (hs : ctx.state = .js .code) :
    ctx.feedAll ['/', '*']
        = { ctx with state := .js .blockComment, word := .empty, lastChar := '/' }
      ∧ ctx.feedAll ['/', '/']
        = { ctx with state := .js .lineComment, word := .empty, lastChar := '/' } := by
  simp only [feedAll_cons, feedAll_nil, feed_slash hs]
  exact ⟨rfl, rfl⟩

theorem feedAll_closeComment (hs : ctx.state = .js .blockComment) :
    ctx.feedAll ['*', '/'] = { ctx.withStar false with state := .js .code } := by
  rw [feedAll_cons, feed_blockComment (.inl hs) (.inl (by decide)), feedAll_cons, feedAll_nil]
  simp [feed, feedJs, feedBlockComment, withStar, hs]

theorem feed_endOfLine (hs : ctx.state = .js .lineComment) (hc : Js.isLineEnd c = true) :
    ctx.feed c = { ctx with state := .js .code } := by
  simp [feed, hs, feedJs, hc]

/-- Whitespace and comments leave the context as it is, but for the two fields that say what comes
right before the cursor. -/
theorem feedAll_blank (h : Js.Blank t) (hs : ctx.state = .js .code) (hf : ctx.flags = {}) :
    ∃ lastChar, ctx.feedAll t = { ctx with word := .empty, lastChar } := by
  cases h with
  | space c hc => exact ⟨remembered c, feed_space hs hc⟩
  | blockComment body hbody =>
    let opened : Context :=
      { ctx with state := .js .blockComment, word := .empty, lastChar := '/' }
    -- the star that opens the comment does not help to close it
    have hstar : opened.flags.afterStar = false := by rw [show opened.flags = {} from hf]
    have hread : opened.feedAll body = opened.withStar (opened.endsInStar body) :=
      feedAll_blockComment_of_open (.inl rfl) (fun h => by rw [hstar] at h; cases h) hbody
    refine ⟨'/', ?_⟩
    rw [feedAll_append, feedAll_append, (feedAll_openComment hs).1, hread,
      feedAll_closeComment rfl, withStar_withStar]
    simp [opened, withStar, hs, hf]
  | lineComment body hbody c hc =>
    refine ⟨'/', ?_⟩
    rw [feedAll_append, feedAll_append, (feedAll_openComment hs).2,
      feedAll_lineComment rfl hbody, feedAll_cons, feedAll_nil, feed_endOfLine rfl hc]
    simp [hs]

/-! ### Any number of pieces -/

/-- Blanks change no more than the last word and the last character. -/
theorem feedAll_blanks {pieces : List Text} (hs : ctx.state = .js .code) (hf : ctx.flags = {})
    (hp : ∀ p ∈ pieces, Js.Blank p) :
    ∃ word lastChar, ctx.feedAll pieces.flatten = { ctx with word, lastChar } := by
  induction pieces generalizing ctx with
  | nil => exact ⟨ctx.word, ctx.lastChar, rfl⟩
  | cons p pieces ih =>
    obtain ⟨hblank, hrest⟩ := List.forall_mem_cons.mp hp
    obtain ⟨last, hfirst⟩ := feedAll_blank hblank hs hf
    obtain ⟨word, lastChar, hnext⟩ := @ih { ctx with word := .empty, lastChar := last } hs hf hrest
    exact ⟨word, lastChar, by rw [List.flatten_cons, feedAll_append, hfirst, hnext]⟩

/-- **Whitespace and comments do not change what a `/` is.** After any number of them the cursor is
in code as before, and the next `/` is read as if they had not been there. -/
theorem slash_after_blanks {pieces : List Text} (h : ctx.Reachable) (hs : ctx.state = .js .code)
    (hp : ∀ p ∈ pieces, Js.Blank p) :
    let next := ctx.feedAll pieces.flatten
    next.state = .js .code ∧ next.slash = ctx.slash ∧ next.flags = {}
      ∧ next.feed '/' = ctx.feed '/' := by
  have hf : ctx.flags = {} :=
    h.wellFormed.remembers.flags_eq (by rw [hs]; rfl) (by simp [hs]) (by simp [hs])
  obtain ⟨word, lastChar, hnext⟩ := feedAll_blanks hs hf hp
  -- a slash looks at neither of the two
  have hlater : ({ ctx with word, lastChar } : Context).feed '/' = ctx.feed '/' := by
    rw [feed_slash hs]
    exact feed_slash hs
  dsimp only
  rw [hnext, hlater]
  exact ⟨hs, rfl, hf, rfl⟩

/-- Slashes and stars in comments after an operand. -/
theorem division_after_comments :
    let ctx := (advance {} false "<script>x++".toList).context
    let pieces := ["\n".toList, "/*/ ***/".toList, "// */ /*\u2028".toList]
    ctx.Reachable ∧ ctx.state = .js .code ∧ (∀ p ∈ pieces, Js.Blank p)
      ∧ (ctx.feedAll pieces.flatten).state = .js .code
      ∧ (ctx.feedAll pieces.flatten).slash = .division := by
  intro ctx pieces
  have hreach : ctx.Reachable := .advance _ .start false _
  have hs : ctx.state = .js .code := by decide +kernel
  have hblank : ∀ p ∈ pieces, Js.Blank p := by
    simp only [pieces, List.forall_mem_cons]
    exact ⟨.space '\n' (by decide), .blockComment "/ **".toList (by decide),
      .lineComment " */ /*".toList (by simp [Js.isLineEnd]) '\u2028' (by decide), by simp⟩
  obtain ⟨hstate, hslash, -⟩ := slash_after_blanks hreach hs hblank
  exact ⟨hreach, hs, hblank, hstate, hslash.trans (by decide +kernel)⟩

end Context

end SafeMarkup
