import SafeMarkup.Proofs.CodeValue
import SafeMarkup.Proofs.ReachableContext

/-!
# Values in template literals

In a template literal an unescaped `$` with a brace after it opens a substitution, in which code
stands. A value writes no `$`, so it opens none on its own. But nothing is done about a brace: if
the trusted text before the value ends in an unescaped `$`, a value that starts with a brace opens
a substitution after all (`Writer.opensSubstitution_iff`). That is unlike a backslash at the end of
the trusted text, which gets a second one so that it escapes nothing of the value.
-/

namespace SafeMarkup

namespace Js

variable {t : Text}

/-- Does the text of a literal end in a backslash that escapes the next character? -/
def endsInEscape (t : Text) : Bool := t.foldl (fun escaping c => !escaping && c == '\\') false

/-- Does the value, which is written as `written` after `seen`, open a substitution? The brace is
from the value, and the `$` right before it is not escaped. -/
def OpensSubstitution (seen written : Text) : Prop :=
  ∃ before after, seen ++ written = before ++ '$' :: '\x7b' :: after
    ∧ seen.length ≤ before.length + 1 ∧ endsInEscape before = false

theorem endsInEscape_append_singleton (t : Text) (c : Char) :
    endsInEscape (t ++ [c]) = (!endsInEscape t && c == '\\') := by
  simp [endsInEscape]

/-! ### Escaped text -/

/-- Escaped text has neither a `$` nor the quote of a template literal. -/
theorem notMem_escapeString {c : Char} (hc : c = '$' ∨ c = '\x60') : c ∉ escapeString t := by
  intro hmem
  have hplain := isSpecial_of_mem_escapeString hmem
  rcases hc with rfl | rfl <;> exact absurd hplain (by decide)

/-- A brace is written as it is, and nothing else is written as a brace. -/
theorem escapeString_brace_iff {s : Text} :
    (∃ rest, escapeString s = '\x7b' :: rest) ↔ ∃ rest, s = '\x7b' :: rest := by
  constructor
  · rintro ⟨rest, heq⟩
    rcases s with _ | ⟨c, s⟩
    · cases heq
    rw [← List.singleton_append, escapeString_append] at heq
    have hchar : escapeString [c] = escapeStringChar c := by simp [escapeString]
    rw [hchar] at heq
    -- what is escaped starts with a backslash
    cases escaped_escapeStringChar c with
    | plain _ ht =>
      rw [ht] at heq
      obtain ⟨rfl, -⟩ := List.cons.inj heq
      exact ⟨s, rfl⟩
    | escape d _ digits _ ht =>
      rw [ht] at heq
      exact absurd (List.cons.inj heq).1 (by decide)
  · rintro ⟨rest, rfl⟩
    exact ⟨escapeString rest, rfl⟩

end Js

namespace Context

/-- Of the template literal at the cursor `t` has been read. -/
inductive TemplateText : Context → Text → Prop where
  | opening (ctx : Context) (hw : ctx.WellFormed) (hs : ctx.state ≠ .js .template) (c : Char)
      (hnext : (ctx.feed c).state = .js .template) : TemplateText (ctx.feed c) []
  | read (ctx : Context) (t : Text) (h : TemplateText ctx t) (c : Char)
      (hnext : (ctx.feed c).state = .js .template) : TemplateText (ctx.feed c) (t ++ [c])

variable {ctx : Context} {c : Char} {s t : Text}

theorem TemplateText.state (h : ctx.TemplateText t) : ctx.state = .js .template := by
  cases h <;> assumption

theorem feed_template (hs : ctx.state = .js .template) (c : Char) :
    ctx.feed c = ctx.feedString '\x60' (.js .code) (fun _ => false) c := by
  simp [feed, hs, feedJs]

/-- A template literal opens in code only, or after the operator that a `/` was. -/
theorem state_of_opening (hs : ctx.state ≠ .js .template)
    (hnext : (ctx.feed c).state = .js .template) :
    ctx.state = .js .code ∨ ctx.state = .js .slash := by
  -- only script leads to a template
  have hentry := (samePlace_feed ctx c).entry
  rw [hnext] at hentry
  cases hstate : ctx.state with
  | js mode =>
    cases mode with
    | code => exact .inl rfl
    | slash => exact .inr rfl
    | template => exact absurd hstate hs
    | doubleQuoted =>
      rcases state_feedString ctx '"' (.js .code) (fun _ => false) c with h | h <;>
        simp [feed, hstate, feedJs, h] at hnext
    | singleQuoted =>
      rcases state_feedString ctx '\'' (.js .code) (fun _ => false) c with h | h <;>
        simp [feed, hstate, feedJs, h] at hnext
    | regexp =>
      simp only [feed, hstate, feedJs] at hnext
      unfold feedJsRegexp at hnext
      repeat' split at hnext
      all_goals simp_all
    | blockComment =>
      simp only [feed, hstate, feedJs, feedBlockComment] at hnext
      split at hnext <;> simp_all
    | lineComment =>
      simp only [feed, hstate, feedJs] at hnext
      split at hnext <;> simp_all
  | _ => rw [hstate] at hentry; cases hentry

/-- After a `/` only an operator leads to a template literal, and it is read as code is. -/
theorem feed_slash_of_opening (hs : ctx.state = .js .slash)
    (hnext : (ctx.feed c).state = .js .template) :
    (ctx.feed c).flags = ctx.flags := by
  simp only [feed, hs, feedJs, feedJsSlash] at hnext ⊢
  split at hnext
  · cases hnext
  next hslash =>
    split at hnext
    · cases hnext
    next hstar =>
      rw [if_neg hslash, if_neg hstar]
      split at hnext
      · unfold feedJsRegexp at hnext
        repeat' split at hnext
        all_goals cases hnext
      · simp only [flags_feedJsCode]

/-- Where a template literal opens no escape is open. -/
theorem escaping_of_opening (hw : ctx.WellFormed) (hs : ctx.state ≠ .js .template)
    (hnext : (ctx.feed c).state = .js .template) : (ctx.feed c).flags.escaping = false := by
  rcases state_of_opening hs hnext with hstate | hstate
  all_goals
    have hflags : ctx.flags = {} :=
      hw.remembers.flags_eq (by rw [hstate]; rfl) (by simp [hstate]) (by simp [hstate])
  · simp only [feed, hstate, feedJs, flags_feedJsCode, hflags]
  · rw [feed_slash_of_opening hstate hnext, hflags]

/-- **The context remembers whether the literal ends in an open escape.** -/
theorem TemplateText.escaping_eq (h : ctx.TemplateText t) :
    ctx.flags.escaping = Js.endsInEscape t := by
  induction h with
  | opening ctx hw hs c hnext => exact escaping_of_opening hw hs hnext
  | read ctx t h c hnext ih =>
    rw [Js.endsInEscape_append_singleton, ← ih]
    rw [feed_template h.state, feedString] at hnext ⊢
    cases he : ctx.flags.escaping with
    | true => simp
    | false =>
      by_cases hback : c = '\\'
      · simp [hback]
      · by_cases hquote : c = '\x60'
        · simp [he, hquote] at hnext
        · simp [he, hback, hquote]

/-- What has no quote in it does not end a template literal. -/
theorem TemplateText.readAll (h : ctx.TemplateText t) (hs : '\x60' ∉ s) :
    (ctx.feedAll s).TemplateText (t ++ s) := by
  induction s generalizing ctx t with
  | nil => simpa using h
  | cons c s ih =>
    rw [List.mem_cons, not_or] at hs
    have hnext : (ctx.feed c).state = .js .template := by
      rw [feed_template h.state, feedString]
      repeat' split
      all_goals first | exact h.state | exact absurd (Eq.symm ‹c = '\x60'›) hs.1 | contradiction
    rw [List.append_cons, feedAll_cons]
    exact ih (.read ctx t h c hnext) hs.2

/-- A template literal that starts with a `$`. -/
theorem templateText_dollar (hw : ctx.WellFormed) (hs : ctx.state = .js .code) :
    ((ctx.feed '\x60').feed '$').TemplateText ['$'] := by
  have hopened : (ctx.feed '\x60').state = .js .template := by
    simp [feed, hs, feedJs, feedJsCode, afterJsChar]
  exact (TemplateText.opening ctx hw (by simp [hs]) _ hopened).readAll (s := ['$']) (by decide)

/-! ### Every template literal has a text -/

theorem exists_templateText_feed (hw : ctx.WellFormed)
    (hctx : ctx.state = .js .template → ∃ t, ctx.TemplateText t)
    (hnext : (ctx.feed c).state = .js .template) : ∃ t, (ctx.feed c).TemplateText t := by
  by_cases hs : ctx.state = .js .template
  · obtain ⟨t, ht⟩ := hctx hs
    exact ⟨t ++ [c], .read ctx t ht c hnext⟩
  · exact ⟨[], .opening ctx hw hs c hnext⟩

/-- No value and no content starts in a template literal. -/
theorem attrValue_state_ne {delim : Delim} : (ctx.attrValue delim).state ≠ .js .template := by
  cases ha : ctx.attr with
  | none => simp [attrValue, ha]
  | some kind => cases kind <;> simp [attrValue, ha]

theorem elementContent_state_ne (element : Option Html.Element) :
    (elementContent element).state ≠ .js .template := by
  cases element with
  | none => simp [elementContent]
  | some element => cases element <;> simp [elementContent]

theorem preserved_templateText :
    Preserved fun ctx => ctx.state = .js .template → ∃ t, ctx.TemplateText t := by
  have hcontent {state : State} (hs : state = .js .template) : state.isContent = true := by
    rw [hs]
    rfl
  exact .of_feed hcontent elementContent_state_ne (fun hs => absurd hs attrValue_state_ne)
    exists_templateText_feed

/-- **In every template literal that can be reached there is a text that has been read.** -/
theorem Reachable.exists_templateText (h : ctx.Reachable) (hs : ctx.state = .js .template) :
    ∃ t, ctx.TemplateText t :=
  preserved_templateText.of_reachable h hs

/-! ### Escaped values -/

/-- In a template literal text is escaped as in a string. -/
theorem ofContext_template (hs : ctx.state = .js .template) :
    Escaper.ofContext ctx = .jsString := by
  simp [Escaper.ofContext, hs, Escaper.ofJs]

/-- **When escaped text opens a substitution.** -/
theorem TemplateText.opens_iff (h : ctx.TemplateText t) (s : Text) :
    Js.OpensSubstitution t (ctx.secondBackslash ++ Js.escapeString s)
      ↔ (∃ before, t = before ++ ['$'] ∧ Js.endsInEscape before = false)
        ∧ ∃ rest, s = '\x7b' :: rest := by
  have hdollar : '$' ∉ ctx.secondBackslash ++ Js.escapeString s := by
    intro hmem
    rcases List.mem_append.mp hmem with hmem | hmem
    · exact absurd (eq_of_mem_secondBackslash hmem) (by decide)
    · exact Js.notMem_escapeString (.inl rfl) hmem
  -- after an unescaped `$` no escape is open, so no backslash is put before the value
  have hnone {before : Text} (ht : t = before ++ ['$']) : ctx.secondBackslash = [] := by
    have he : ctx.flags.escaping = false := by
      rw [h.escaping_eq, ht, Js.endsInEscape_append_singleton]
      simp
    rw [secondBackslash, hasPartialEscape_of_escaping he]
    rfl
  constructor
  · rintro ⟨before, after, heq, hlen, hescape⟩
    rcases List.append_eq_append_iff.mp heq with ⟨more, hbefore, hwritten⟩ | ⟨more, ht, hmore⟩
    · exact absurd (by rw [hwritten]; simp) hdollar
    rcases more with _ | ⟨d, more⟩
    · exact absurd (by rw [← List.nil_append (_ ++ _), ← hmore]; simp) hdollar
    obtain ⟨rfl, hbrace⟩ := List.cons.inj hmore
    obtain rfl : more = [] := by
      rw [ht] at hlen
      simpa using hlen
    rw [hnone ht] at hbrace
    exact ⟨⟨before, ht, hescape⟩, Js.escapeString_brace_iff.mp ⟨after, hbrace.symm⟩⟩
  · rintro ⟨⟨before, ht, hescape⟩, hs⟩
    obtain ⟨rest, hrest⟩ := Js.escapeString_brace_iff.mpr hs
    refine ⟨before, rest, ?_, by rw [ht]; simp, hescape⟩
    rw [hnone ht, hrest, ht]
    simp

end Context

namespace Writer

variable {w : Writer}

/-- **When a value opens a substitution.** It does if it starts with a brace and comes right after
an unescaped `$` of the trusted text, and otherwise it does not. What it is written as is then read
as a part of the literal. -/
theorem opensSubstitution_iff (hw : Reachable w) (hopen : w.closed = false)
    (hs : w.context.state = .js .template) (value : Value) :
    (∃ seen, w.context.TemplateText seen)
      ∧ ∀ seen, w.context.TemplateText seen →
        (Js.OpensSubstitution seen (w.readText value)
          ↔ (∃ before, seen = before ++ ['$'] ∧ Js.endsInEscape before = false)
            ∧ ∃ rest, valueText w.serializer .jsString value = '\x7b' :: rest)
        ∧ (w.held.text = [] ∨ w.decided.inAttrValue = true →
          (w.writeValue value).writer.context.TemplateText (seen ++ w.readText value)) := by
  have hescaper := Context.ofContext_template hs
  have hread : w.readText value
      = w.context.secondBackslash ++ Js.escapeString (valueText w.serializer .jsString value) := by
    rw [readText, hescaper, Context.readFor, hescaper]
    rfl
  refine ⟨hw.context.exists_templateText hs, fun seen hseen => ⟨?_, fun hheld => ?_⟩⟩
  · rw [hread]
    exact hseen.opens_iff _
  · have hcode : w.context.InCode := by
      rw [Context.InCode, hs]
      exact .inr (.inl rfl)
    have hreads := reads_writeValue hw hopen hcode hheld value fun c hc => by
      rw [hescaper] at hc
      have hinline : Js.isInline c = true := Js.isInline_of_mem_escapeString hc
      exact ⟨ne_of_class hinline (by decide), ne_of_class hinline (by decide)⟩
    -- the value does not end the template, since its quote is escaped
    have hquote : '\x60' ∉ w.readText value := by
      rw [hread]
      intro hmem
      rcases List.mem_append.mp hmem with hmem | hmem
      · exact absurd (Context.eq_of_mem_secondBackslash hmem) (by decide)
      · exact Js.notMem_escapeString (.inr rfl) hmem
    rw [hreads.context]
    exact hseen.readAll hquote

/-- A reference to a `$` that trusted text has left open. -/
theorem reference_opens_substitution :
    let w := startingWith "<a onclick=\"f(\x60&#36".toList
    let value := Value.str "\x7ba\x7d".toList
    w.closed = false ∧ w.context.state = .js .template ∧ w.held.text = "&#36".toList
      ∧ w.context.TemplateText ['$'] ∧ Js.OpensSubstitution ['$'] (w.readText value)
      ∧ (w.writeValue value).writer.context.TemplateText (['$'] ++ w.readText value) := by
  intro w value
  have hopen : w.closed = false := by decide +kernel
  have hs : w.context.state = .js .template := by decide +kernel
  have hin : w.decided.inAttrValue = true := by decide +kernel
  have hseen : w.context.TemplateText ['$'] := by
    -- the reference is held back, and is read as a dollar
    let code := (Context.advance {} false "<a onclick=\"f(".toList).context
    have hcode : code.WellFormed := (Context.Reachable.advance _ .start _ _).wellFormed
    have hcontext : w.context = (code.feed '\x60').feed '$' := by decide +kernel
    rw [hcontext]
    exact Context.templateText_dollar hcode (by decide +kernel)
  obtain ⟨-, hall⟩ := opensSubstitution_iff
    (reachable_startingWith "<a onclick=\"f(\x60&#36".toList) hopen hs value
  obtain ⟨hiff, hread⟩ := hall ['$'] hseen
  have hopens : Js.OpensSubstitution ['$'] (w.readText value) :=
    hiff.mpr ⟨⟨[], rfl, rfl⟩, "a\x7d".toList, rfl⟩
  exact ⟨hopen, hs, by decide +kernel, hseen, hopens, hread (.inr hin)⟩

/-- **A value can open a substitution**: nothing is done about the brace after a `$`. -/
theorem brace_opens_substitution :
    let w := startingWith "<script>x = \x60$".toList
    let value := Value.str "\x7ba\x7d".toList
    Reachable w ∧ w.closed = false ∧ w.context.state = .js .template
      ∧ w.context.TemplateText ['$'] ∧ w.escapeValue value = "\x7ba\x7d".toList
      ∧ Js.OpensSubstitution ['$'] (w.escapeValue value) := by
  intro w value
  have hseen : w.context.TemplateText ['$'] := by
    let code := (Context.advance {} false "<script>x = ".toList).context
    have hcode : code.WellFormed := (Context.Reachable.advance _ .start _ _).wellFormed
    have hcontext : w.context = (code.feed '\x60').feed '$' := by decide +kernel
    rw [hcontext]
    exact Context.templateText_dollar hcode (by decide +kernel)
  have hwritten : w.escapeValue value = "\x7ba\x7d".toList := by decide +kernel
  refine ⟨reachable_startingWith _, by decide +kernel, by decide +kernel, hseen, hwritten, ?_⟩
  rw [hwritten]
  exact ⟨[], "a\x7d".toList, rfl, by decide, rfl⟩

end Writer

end SafeMarkup
