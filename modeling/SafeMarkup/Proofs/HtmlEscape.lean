import SafeMarkup.Directive
import SafeMarkup.Proofs.Peek

/-!
# Escaped text in markup and in values

Escaped text has no character with a meaning in markup, and in the value of an attribute none that
ends the value (`isHarmless_of_mem_escape`). In a value all references of escaped text are complete,
so what reaches the language at the cursor is the text before it was escaped (`advance_escape`).
-/

namespace SafeMarkup

namespace Html

/-- Is `c` without a meaning in markup, and in an unquoted value if the text is for one? -/
def isHarmless (quoting : Quoting) (c : Char) : Bool :=
  c != '<' && c != '>' && c != '"' && c != '\'' && c != '\x00' &&
    (quoting == .quoted || !(isHtmlSpace c || c == '=' || c == '\x60'))

/-- An escaped character is written with characters that end no value. -/
theorem isHarmless_escapeChar {quoting : Quoting} {c d : Char} (h : d ∈ escapeChar quoting c) :
    isHarmless quoting d = true := by
  -- a replacement is a fixed text, so its characters can be checked
  have decided {t : Text} (ht : t.all (isHarmless .unquoted) = true) (hd : d ∈ t) :
      isHarmless quoting d = true := by
    have := List.all_eq_true.mp ht d hd
    cases quoting <;> simp_all [isHarmless]
  unfold escapeChar replacement? at h
  split at h
  · exact decided (by decide) h
  · exact decided (by decide) h
  · exact decided (by decide) h
  · exact decided (by decide) h
  · exact decided (by decide) h
  -- without quotes there are more characters to be replaced
  cases quoting with
  | quoted => simp_all [isHarmless]
  | unquoted =>
    dsimp only at h
    split at h
    · exact decided (by decide) h
    · exact decided (by decide) h
    · exact decided (by decide) h
    · exact decided (by decide) h
    · exact decided (by decide) h
    · exact decided (by decide) h
    · exact decided (by decide) h
    · simp_all [isHarmless, isHtmlSpace]

/-- **Escaped text has no meaning in markup**, and an unquoted value does not end in it. -/
theorem isHarmless_of_mem_escape {quoting : Quoting} {soft : Bool} {t : Text} {d : Char}
    (h : d ∈ escape quoting soft t) : isHarmless quoting d = true := by
  induction t with
  | nil => cases h
  | cons c t ih =>
    have hamp : isHarmless quoting '&' = true := by cases quoting <;> rfl
    simp only [escape] at h
    split at h
    · -- the `&` is kept or replaced, as the mode has it
      split at h
      · rcases List.mem_cons.mp h with rfl | h
        · exact hamp
        · exact ih h
      · rcases List.mem_append.mp h with h | h
        · have hall : "&amp;".toList.all (isHarmless .unquoted) = true := by decide
          have := List.all_eq_true.mp hall d h
          cases quoting <;> simp_all [isHarmless]
        · exact ih h
    · rcases List.mem_append.mp h with h | h
      · exact isHarmless_escapeChar h
      · exact ih h

end Html

/-- The form of escaping that a value delimited in this way needs. -/
def Delim.quoting : Delim → Html.Quoting
  | .doubleQuote | .singleQuote => .quoted
  | .spaceOrTagEnd | .autoQuote => .unquoted

theorem Delim.endsAt_of_isHarmless {delim : Delim} {c : Char}
    (h : Html.isHarmless delim.quoting c = true) : delim.endsAt c = false := by
  cases delim <;> simp_all [Html.isHarmless, Delim.quoting, Delim.endsAt]

theorem Directive.quoting_eq {ctx : Context} {delim : Delim} (hd : ctx.delim = some delim) :
    Directive.quoting ctx = some delim.quoting := by
  cases delim <;> simp [Directive.quoting, hd, Delim.quoting]

namespace Context

variable {ctx : Context} {last : Bool} {delim : Delim} {t : Text}

/-! ### Plain text in a value -/

/-- A value that is neither a URL nor code goes on as long as its end does not come. -/
theorem advance_plainValue (hd : ctx.delim = some delim) (hs : ctx.state = .plainValue)
    (ht : ∀ c ∈ t, delim.endsAt c = false) : (ctx.advance last t).context = ctx := by
  induction ctx, t using advance_induction last with
  | nil => rfl
  | consumed ctx c rest next w u hstep ih =>
    have hnext : next = ctx := by
      -- the characters of the value are read, and no other step is one in a value
      cases next_of_step hstep with
      | inValue _ _ _ d => simp [feed, hs]
      | valueEnd delim' hd' hc =>
        cases hd'.symm.trans hd
        rw [ht c List.mem_cons_self] at hc
        cases hc
      | inText hd' | markup hd' | tagStart hd' | inTagName hd' | tagNameEnd hd' | inTag hd'
      | attr hd' | tagClose hd' | inAttrName hd' | afterName hd' | noValue hd' | nextAttr hd'
      | beforeValue hd' | valueStart hd' | unquotedStart hd' | inComment hd' | commentEnd hd'
      | inContent hd' | contentEnd hd' => cases hd'.symm.trans hd
    subst hnext
    rw [advance_consumed hstep, after_context]
    exact ih hd hs fun d hd => ht d (List.mem_cons_of_mem c (List.mem_of_mem_drop hd))
  | blocked ctx c rest next hstep =>
    rw [advance_blocked hstep]
    cases (blocked_of_step hstep).2.1 with
    | same => rfl
    | tag hd' | value hd' => cases hd'.symm.trans hd

/-! ### References in a value -/

/-- Browsers read a NUL as U+FFFD. -/
def decoded (c : Char) : Char := if c = '\x00' then '\ufffd' else c

/-- A complete reference is read as the character that it refers to. -/
theorem advance_reference {d : Char} (hd : ctx.delim = some delim)
    (ht : Html.CharRef.scan false t = .complete (t.length + 1) d) (rest : Text) :
    ctx.advance last ('&' :: t ++ rest)
      = ((ctx.feed d).advance last rest).after ('&' :: t) := by
  have hscan : Html.CharRef.scan last (t ++ rest) = .complete (t.length + 1) d := by
    rw [Html.CharRef.scan_append (by simp [ht]), ht]
  have hstep : ctx.step last '&' (t ++ rest)
      = .consumed (ctx.feed d) ('&' :: t) (t.length + 1) := by
    rw [step_amp (by rw [hd]; rfl)]
    simp [stepValueChar, hscan, Step.copy]
  rw [List.cons_append, advance_consumed hstep]
  simp

/-- An escaped character is read as the character. -/
theorem advance_escapeChar {c : Char} (hd : ctx.delim = some delim) (hc : c ≠ '&') (rest : Text) :
    ctx.advance last (Html.escapeChar delim.quoting c ++ rest)
      = ((ctx.feed (decoded c)).advance last rest).after (Html.escapeChar delim.quoting c) := by
  -- a character that stands for itself
  have plain {d : Char} (hd' : delim.isPlain d = true) :
      ctx.advance last ([d] ++ rest) = ((ctx.feed d).advance last rest).after [d] := by
    rw [List.singleton_append, advance_consumed (step_value hd hd')]
    rfl
  unfold Html.escapeChar Html.replacement?
  split
  · exact advance_reference hd (t := "lt;".toList) (by decide) rest
  · exact advance_reference hd (t := "gt;".toList) (by decide) rest
  · exact advance_reference hd (t := "#34;".toList) (by decide) rest
  · exact advance_reference hd (t := "#39;".toList) (by decide) rest
  · exact plain (by cases delim <;> decide)
  next hlt hgt hquote happ hnul =>
    have hplain (hspace : delim.quoting = .unquoted → isHtmlSpace c = false) :
        ctx.advance last ([c] ++ rest) = ((ctx.feed (decoded c)).advance last rest).after [c] := by
      rw [decoded, if_neg hnul]
      refine plain ?_
      cases delim <;> simp_all [Delim.isPlain, Delim.endsAt, Delim.quoting]
    cases hq : delim.quoting with
    | quoted => exact hplain (by simp [hq])
    | unquoted =>
      dsimp only
      split
      · exact advance_reference hd (t := "#9;".toList) (by decide) rest
      · exact advance_reference hd (t := "#10;".toList) (by decide) rest
      · exact advance_reference hd (t := "#12;".toList) (by decide) rest
      · exact advance_reference hd (t := "#13;".toList) (by decide) rest
      · exact advance_reference hd (t := "#32;".toList) (by decide) rest
      · exact advance_reference hd (t := "#61;".toList) (by decide) rest
      · exact advance_reference hd (t := "#96;".toList) (by decide) rest
      · exact hplain fun _ => by simp_all [isHtmlSpace]

/-- **A value undoes escaping.** The language at the cursor gets to read the text before it was
escaped. -/
theorem advance_escape (hd : ctx.delim = some delim) (s : Text) :
    ctx.advance last (Html.escape delim.quoting false s)
      = ⟨ctx.feedAll (s.map decoded), Html.escape delim.quoting false s, []⟩ := by
  induction s generalizing ctx with
  | nil => rfl
  | cons c s ih =>
    have hfeed (d : Char) : (ctx.feed d).delim = some delim := (samePlace_feed ctx d).delim.trans hd
    -- the `&` is one of the references, all others depend on the quotes
    by_cases hc : c = '&'
    · subst hc
      have href : ctx.advance last (Html.escape delim.quoting false ('&' :: s)) = _ :=
        advance_reference hd (t := "amp;".toList) (d := '&') (by decide) _
      rw [href, ih (hfeed '&')]
      rfl
    · have hescape : Html.escape delim.quoting false (c :: s)
          = Html.escapeChar delim.quoting c ++ Html.escape delim.quoting false s := by
        simp [Html.escape, hc]
      rw [hescape, advance_escapeChar hd hc, ih (hfeed (decoded c))]
      rfl

/-- **Escaping for a value is undone by the value.** Whatever the text is, the value does not end in
it, nothing of it is held back, and it goes out as it is. The language at the cursor reads the
characters of the text one by one as they were before, only a NUL as U+FFFD. -/
theorem value_undoes_escaping (hd : ctx.delim = some delim) (s : Text) :
    let escaped := Html.escape delim.quoting false s
    let p := ctx.advance false escaped
    p.held = [] ∧ p.written = escaped
      ∧ p.context.delim = ctx.delim ∧ p.context.attr = ctx.attr ∧ p.context.element = ctx.element
      ∧ p.context = ctx.feedAll (s.map decoded) := by
  intro escaped p
  have hp : p = ⟨ctx.feedAll (s.map decoded), escaped, []⟩ := advance_escape hd s
  -- no character that is read leads out of the value
  have hplace : ctx.SamePlace p.context := by
    rw [hp]
    exact samePlace_feedAll ctx _
  exact ⟨by rw [hp], by rw [hp], hplace.delim, hplace.attr, hplace.element, by rw [hp]⟩

/-- Code in a value without quotes: with the references undone the string is still open. -/
theorem unquoted_code_is_undone :
    let ctx := (advance {} false "<a onclick=f(".toList).context
    let p := ctx.advance false (Html.escape .unquoted false "'a &#39;\x00".toList)
    ctx.delim = some .spaceOrTagEnd ∧ p.held = []
      ∧ p.written = "&#39;a&#32;&amp;#39;\ufffd".toList
      ∧ p.context = ctx.feedAll "'a &#39;\ufffd".toList
      ∧ p.context.state = .js .singleQuoted := by
  intro ctx p
  have hd : ctx.delim = some .spaceOrTagEnd := by decide
  obtain ⟨hheld, hwritten, -, -, -, hcontext⟩ :=
    value_undoes_escaping hd "'a &#39;\x00".toList
  exact ⟨hd, hheld, hwritten.trans (by decide), hcontext.trans (by decide), by decide⟩

end Context

end SafeMarkup
