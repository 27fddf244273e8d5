import SafeMarkup.Writer.Basic
import SafeMarkup.Proofs.JsLiteral
import SafeMarkup.Proofs.CssEscape
import SafeMarkup.Proofs.UrlEscape

/-!
# What the language at the cursor reads for a value

In URLs, JS and CSS a value is escaped for the language at the cursor. In the value of an attribute
a second pass comes after that, which the reading of the attribute undoes. So what matters is the
text in between (`escapedText`). It moves the cursor nowhere (`leadsTo_escapedText`), and it has no
character that means something in markup (`ne_of_mem_escape`).
-/

namespace SafeMarkup

namespace Context

variable {ctx : Context} {text : Text} {options : EscapeOptions}

/-- The state after a value whose text is `text`. After a `/` it is clear what the `/` is, after
`url(` that the URL is not quoted, and in a tag the value is the name of an attribute. -/
def stateAfterValue (ctx : Context) (text : Text) : State :=
  match ctx.state with
  | .js .slash =>
    match ctx.slash with
    | .regexp => .js .regexp
    | .division => .js .code
  | .css .slash => if text.isEmpty then .css .slash else .css .code
  | .css .urlOpen => if text.isEmpty then .css .urlOpen else .css .url
  | .tag | .afterName => .attrName
  | state => state

/-- The backslash that is put before a value if there is one already. -/
def secondBackslash (ctx : Context) : Text := if ctx.hasPartialEscape then ['\\'] else []

/-- The text that the language at the cursor gets to read for a value. -/
def escapedText (ctx : Context) (options : EscapeOptions) (value : Value) : Text :=
  ctx.secondBackslash ++
    (Escaper.ofContext ctx).escape options
      (Writer.valueText .default (Escaper.ofContext ctx) value)

/-- The text leads the language at the cursor to a state, and leaves no escape open. -/
structure LeadsTo (ctx : Context) (t : Text) (state : State) : Prop where
  state : (ctx.feedAll t).state = state
  escape : (ctx.feedAll t).hasPartialEscape = false

variable {t : Text} {state : State}

theorem leadsTo_of_state (h : (ctx.feedAll t).state = state) (hs : state.allowsEscapes = false) :
    ctx.LeadsTo t state :=
  ⟨h, hasPartialEscape_of_state (by rw [h, hs])⟩

/-- A backslash before a value is over with the backslash that is put before the value. -/
theorem leadsTo_afterBackslash (hs : ctx.state.allowsEscapes = true)
    (hback : ctx.flags.escaping = true →
      (ctx.feed '\\').state = ctx.state ∧ (ctx.feed '\\').flags.escaping = false)
    (ht : ∀ next : Context, next.state = ctx.state → next.flags.escaping = false →
      (next.feedAll t).state = ctx.state ∧ (next.feedAll t).flags.escaping = false) :
    ctx.LeadsTo (ctx.secondBackslash ++ t) ctx.state := by
  have hpartial : ctx.hasPartialEscape = ctx.flags.escaping := by
    rw [hasPartialEscape, hs, Bool.and_true]
  cases he : ctx.flags.escaping with
  | true =>
    obtain ⟨hstate, hescape⟩ := hback he
    obtain ⟨hstate', hescape'⟩ := ht _ hstate hescape
    rw [secondBackslash, hpartial, he]
    exact ⟨hstate', hasPartialEscape_of_escaping hescape'⟩
  | false =>
    obtain ⟨hstate, hescape⟩ := ht ctx rfl he
    rw [secondBackslash, hpartial, he]
    exact ⟨hstate, hasPartialEscape_of_escaping hescape⟩

/-- Without escapes at the cursor nothing is put before the value. -/
theorem escapedText_eq {value : Value} (hs : ctx.state.allowsEscapes = false) :
    ctx.escapedText options value = (Escaper.ofContext ctx).escape options
      (Writer.valueText .default (Escaper.ofContext ctx) value) := by
  rw [escapedText, secondBackslash, hasPartialEscape_of_state hs]
  rfl

/-! ### JS -/

/-- A value leaves a string as it was. A backslash that is open before the value is doubled. -/
theorem leadsTo_jsString {mode : Js.Mode} {quote : Char} (hs : ctx.state = .js mode)
    (hq : jsQuote? mode = some quote) (t : Text) :
    ctx.LeadsTo (ctx.secondBackslash ++ Js.escapeString t) ctx.state := by
  refine leadsTo_afterBackslash (by rw [hs]; exact allowsEscapes_jsQuote hq) (fun he => ?_)
    fun next hn he => ?_
  · rw [feed_backslash (readsString_js hs hq) he]
    exact ⟨rfl, rfl⟩
  · rw [feedAll_escapeString (hn.trans hs) hq he]
    exact ⟨hn, he⟩

theorem leadsTo_jsRegexp (hs : ctx.state = .js .regexp) (t : Text) :
    ctx.LeadsTo (ctx.secondBackslash ++ Js.escapeRegexp t) ctx.state := by
  refine leadsTo_afterBackslash (by rw [hs]; rfl) (fun he => ?_) fun next hn he => ?_
  · rw [feed_regexp_backslash hs he]
    exact ⟨rfl, rfl⟩
  · rw [feedAll_escapeRegexp (hn.trans hs) he]
    exact ⟨hn, he⟩

/-- A value after a `/` decides what the `/` is. -/
theorem leadsTo_jsSlash (hw : ctx.Remembers) (hs : ctx.state = .js .slash)
    (options : EscapeOptions) (value : Value) :
    ctx.LeadsTo (ctx.escapedText options value) (ctx.stateAfterValue value.display) := by
  have hf := hw.flags_eq (by rw [hs]; rfl) (by simp [hs]) (by simp [hs])
  have htext : ctx.escapedText options value = _ := escapedText_eq (by rw [hs]; rfl)
  cases hslash : ctx.slash with
  | regexp =>
    obtain ⟨t, ht⟩ : ∃ t, ctx.escapedText options value = Js.escapeRegexp t := by
      simp only [htext, Escaper.ofContext, hs, hslash, Escaper.ofJs, Escaper.escape]
      exact ⟨_, rfl⟩
    have hregexp : feedAll { ctx with state := .js .regexp } (Js.escapeRegexp t)
        = { ctx with state := .js .regexp } := feedAll_escapeRegexp rfl (by simp [hf]) t
    obtain ⟨c, rest, hcons, hc, hc'⟩ := exists_cons_escapeRegexp t
    have hall :
        ctx.feedAll (ctx.escapedText options value) = { ctx with state := .js .regexp } := by
      rw [ht, hcons, feedAll_slash_regexp hs hslash hc hc', ← hcons, hregexp]
    exact ⟨by simp [hall, stateAfterValue, hs, hslash], by simp [hall, hasPartialEscape, hf]⟩
  | division =>
    have ht : ctx.escapedText options value = value.literal := by
      simp [htext, Escaper.ofContext, hs, hslash, Escaper.ofJs, Escaper.escape,
        Writer.valueText, Serializer.default]
    -- read as code, the literal starts with a character that settles the `/`
    obtain ⟨c, rest, hcons, hc, hc'⟩ := (Js.isExpression_literal value).first
    have hliteral := (Js.isExpression_literal value).keeps
      { ctx with state := .js .code, slash := .regexp, lastChar := '/' } rfl hf
    rw [hcons, ← feedAll_slash_division hs hslash hc hc', ← hcons, ← ht] at hliteral
    exact leadsTo_of_state (hliteral.1.trans (by simp [stateAfterValue, hs, hslash]))
      (by simp [stateAfterValue, hs, hslash, State.allowsEscapes])

/-- **In JS a value leaves the cursor where it is**, or decides what the `/` before it was. -/
theorem leadsTo_escapedText_js {mode : Js.Mode} (hw : ctx.Remembers) (hs : ctx.state = .js mode)
    (options : EscapeOptions) (value : Value) :
    ctx.LeadsTo (ctx.escapedText options value) (ctx.stateAfterValue value.display) := by
  by_cases hslash : mode = .slash
  · subst hslash
    exact leadsTo_jsSlash hw hs options value
  have hafter : ctx.stateAfterValue value.display = ctx.state := by
    cases mode <;> simp_all [stateAfterValue]
  rw [hafter]
  cases mode with
  | slash => exact absurd rfl hslash
  | code =>
    -- in code no flag is left over, so the value starts as an expression does
    have hf := hw.flags_eq (by rw [hs]; rfl) (by simp [hs]) (by simp [hs])
    have ht : ctx.escapedText options value = value.literal := by
      rw [escapedText_eq (by rw [hs]; rfl)]
      simp [Escaper.ofContext, hs, Escaper.ofJs, Escaper.escape, Writer.valueText,
        Serializer.default]
    have hliteral := (Js.isExpression_literal value).keeps ctx hs hf
    rw [ht]
    exact leadsTo_of_state (hliteral.1.trans hs.symm) (by rw [hs]; rfl)
  | doubleQuoted | singleQuoted | template =>
    have ht : ctx.escapedText options value
        = ctx.secondBackslash ++ Js.escapeString (Writer.valueText .default .jsString value) := by
      simp [escapedText, Escaper.ofContext, hs, Escaper.ofJs, Escaper.escape]
    rw [ht]
    exact leadsTo_jsString hs rfl _
  | regexp =>
    have ht : ctx.escapedText options value
        = ctx.secondBackslash ++ Js.escapeRegexp (Writer.valueText .default .jsRegexp value) := by
      simp [escapedText, Escaper.ofContext, hs, Escaper.ofJs, Escaper.escape]
    rw [ht]
    exact leadsTo_jsRegexp hs _
  | blockComment | lineComment =>
    have ht : ctx.escapedText options value
        = Js.escapeString (Writer.valueText .default .jsString value) := by
      rw [escapedText_eq (by rw [hs]; rfl)]
      simp [Escaper.ofContext, hs, Escaper.ofJs, Escaper.escape]
    have hstate : (ctx.feedAll (ctx.escapedText options value)).state = ctx.state := by
      rw [ht]
      -- a star is remembered in a block comment only
      first
      | rw [feedAll_blockComment_escapeString hs, withStar_state]
      | rw [feedAll_lineComment hs fun c hc => Js.isLineEnd_of_mem_escapeString hc]
    exact leadsTo_of_state hstate (by rw [hs]; rfl)

/-! ### CSS -/

/-- A value leaves a string of CSS as it was. -/
theorem leadsTo_cssString {mode : Css.Mode} {quote : Char} (hs : ctx.state = .css mode)
    (hq : cssQuote? mode = some quote) (t : Text) :
    ctx.LeadsTo (ctx.secondBackslash ++ Css.escape t) ctx.state := by
  have hescapes : ctx.state.allowsEscapes = true := by
    rw [hs]
    cases mode <;> first | rfl | cases hq
  refine leadsTo_afterBackslash hescapes (fun he => ?_) fun next hn he => ?_
  · rw [feed_backslash (readsString_css hs hq) he]
    exact ⟨rfl, rfl⟩
  · rw [feedAll_cssEscape (hn.trans hs) hq he]
    exact ⟨hn, he⟩

theorem leadsTo_cssQuotedUrl
    (hs : ctx.state = .css .doubleQuotedUrl ∨ ctx.state = .css .singleQuotedUrl)
    (ht : ∀ c ∈ t, Url.isNormal c = true) : ctx.LeadsTo (ctx.secondBackslash ++ t) ctx.state := by
  have hescapes : ctx.state.allowsEscapes = true := by rcases hs with hs | hs <;> rw [hs] <;> rfl
  refine leadsTo_afterBackslash hescapes (fun he => ?_) fun next hn he => ?_
  · rcases hs with hs | hs <;> simp [feed, hs, feedCss, feedCssQuotedUrl, feedString, he]
  · have hreads : next.state = .css .doubleQuotedUrl ∨ next.state = .css .singleQuotedUrl := by
      rwa [hn]
    obtain ⟨hstate, hflags⟩ := feedAll_isNormal
      (by rcases hreads with hs | hs <;> rw [hs] <;> rfl) he ht
    exact ⟨hstate.trans hn, by rw [hflags, he]⟩

/-- **In CSS a value leaves the cursor where it is**, or decides what came before it. -/
theorem leadsTo_escapedText_css {mode : Css.Mode} (hw : ctx.Remembers) (hs : ctx.state = .css mode)
    (options : EscapeOptions) (value : Value) :
    ctx.LeadsTo (ctx.escapedText options value) (ctx.stateAfterValue value.display) := by
  have hescaped : ∀ c ∈ Css.escape value.display, Css.isEscaped c = true :=
    fun c hc => Css.isEscaped_of_mem_escape hc
  have hnormal : ∀ c ∈ (Escaper.url ctx.urlPart).escape options value.display,
      Url.isNormal c = true := fun c hc => isNormal_of_mem_escape hc
  -- what the escaper is for, and that nothing is put before the value outside of strings
  have hcss (hm : Escaper.ofCss ctx.urlPart mode = .css) :
      ctx.escapedText options value = ctx.secondBackslash ++ Css.escape value.display := by
    simp [escapedText, Escaper.ofContext, hs, hm, Escaper.escape, Writer.valueText,
      Serializer.default]
  have hurl (hm : Escaper.ofCss ctx.urlPart mode = .url ctx.urlPart) :
      ctx.escapedText options value
        = ctx.secondBackslash ++ (Escaper.url ctx.urlPart).escape options value.display := by
    simp [escapedText, Escaper.ofContext, hs, hm, Writer.valueText, Serializer.default]
  have hbare (ha : (State.css mode).allowsEscapes = false) : ctx.secondBackslash = [] := by
    rw [secondBackslash, hasPartialEscape_of_state (by rw [hs, ha])]
    rfl
  have hafter (hstate : (State.css mode) ≠ .css .slash ∧ (State.css mode) ≠ .css .urlOpen) :
      ctx.stateAfterValue value.display = ctx.state := by
    cases mode <;> simp_all [stateAfterValue]
  cases mode with
  | code =>
    rw [hcss rfl, hbare rfl, hafter (by simp)]
    exact leadsTo_of_state ((feedAll_cssCode hs hescaped).trans hs.symm) (by rw [hs]; rfl)
  | slash =>
    rw [hcss rfl, hbare rfl]
    by_cases hnone : value.display = []
    · rw [hnone]
      exact leadsTo_of_state (by simp [Css.escape, stateAfterValue, hs])
        (by simp [stateAfterValue, hs, State.allowsEscapes])
    · have hstate := feedAll_cssSlash hs hescaped (Css.escape_ne_nil hnone)
      exact leadsTo_of_state (hstate.trans (by simp [stateAfterValue, hs, hnone]))
        (by simp [stateAfterValue, hs, hnone, State.allowsEscapes])
  | doubleQuoted | singleQuoted =>
    rw [hcss rfl, hafter (by simp)]
    exact leadsTo_cssString hs rfl _
  | urlOpen =>
    have hf := hw.flags_eq (by rw [hs]; rfl) (by simp [hs]) (by simp [hs])
    rw [hurl rfl, hbare rfl]
    by_cases hnone : value.display = []
    · rw [hnone, escape_url_eq_nil_iff.mpr rfl]
      exact leadsTo_of_state (by simp [stateAfterValue, hs])
        (by simp [stateAfterValue, hs, State.allowsEscapes])
    · have hstate := feedAll_urlOpen hs (by rw [hf]) hnormal
        fun h => hnone (escape_url_eq_nil_iff.mp h)
      exact leadsTo_of_state (hstate.trans (by simp [stateAfterValue, hs, hnone]))
        (by simp [stateAfterValue, hs, hnone, State.allowsEscapes])
  | url =>
    have hf := hw.flags_eq (by rw [hs]; rfl) (by simp [hs]) (by simp [hs])
    rw [hurl rfl, hbare rfl, hafter (by simp)]
    exact leadsTo_of_state (feedAll_isNormal (by rw [hs]; rfl) (by rw [hf]) hnormal).1
      (by rw [hs]; rfl)
  | doubleQuotedUrl =>
    rw [hurl rfl, hafter (by simp)]
    exact leadsTo_cssQuotedUrl (Or.inl hs) hnormal
  | singleQuotedUrl =>
    rw [hurl rfl, hafter (by simp)]
    exact leadsTo_cssQuotedUrl (Or.inr hs) hnormal
  | blockComment =>
    rw [hcss rfl, hbare rfl, hafter (by simp)]
    refine leadsTo_of_state ?_ (by rw [hs]; rfl)
    rw [List.nil_append, feedAll_blockComment (Or.inr hs) fun h =>
      absurd (hescaped '/' h) (by decide), withStar_state]
  | lineComment =>
    rw [hcss rfl, hbare rfl, hafter (by simp)]
    refine leadsTo_of_state ?_ (by rw [hs]; rfl)
    rw [List.nil_append, feedAll_cssLineComment hs hescaped]

/-! ### All languages together -/

/-- **What the language at the cursor reads for a value** moves the cursor nowhere. -/
theorem leadsTo_escapedText (hw : ctx.Remembers)
    (hcode : ctx.state = .url ∨ ctx.state.isJs = true ∨ ctx.state.isCss = true)
    (options : EscapeOptions) (value : Value) :
    ctx.LeadsTo (ctx.escapedText options value) (ctx.stateAfterValue value.display) := by
  cases hstate : ctx.state with
  | url =>
    have hf := hw.flags_eq (by rw [hstate]; rfl) (by simp [hstate]) (by simp [hstate])
    have ht : ctx.escapedText options value
        = (Escaper.url ctx.urlPart).escape options value.display := by
      rw [escapedText_eq (by rw [hstate]; rfl)]
      simp [Escaper.ofContext, hstate, Writer.valueText, Serializer.default]
    -- the characters that a URL is escaped to end no URL
    have hnext := (feedAll_isNormal (by rw [hstate]; rfl) (by rw [hf])
      fun c (hc : c ∈ (Escaper.url ctx.urlPart).escape options value.display) =>
        isNormal_of_mem_escape hc).1
    have hafter : ctx.stateAfterValue value.display = ctx.state := by simp [stateAfterValue, hstate]
    rw [ht, hafter]
    exact leadsTo_of_state hnext (by rw [hstate]; rfl)
  | js mode => exact leadsTo_escapedText_js hw hstate options value
  | css mode => exact leadsTo_escapedText_css hw hstate options value
  | text | tagName | tag | attrName | afterName | beforeValue | plainValue | rcdata | comment
  | bogusComment =>
    rw [hstate] at hcode
    rcases hcode with h | h | h <;> cases h

/-- The escapers for URLs, JS and CSS make no character that means something in markup. -/
theorem ne_of_mem_escape {escaper : Escaper} (he : escaper.isSinglePass = false) {value : Value}
    {c : Char} (hc : c ∈ escaper.escape options (Writer.valueText .default escaper value)) :
    c ≠ '<' ∧ c ≠ '\x00' := by
  have inline (h : Js.isInline c = true) : c ≠ '<' ∧ c ≠ '\x00' :=
    ⟨ne_of_class h (by decide), ne_of_class h (by decide)⟩
  cases escaper with
  | html | tagName | attrName => cases he
  | url part =>
    have h := isNormal_of_mem_escape hc
    exact ⟨ne_of_class h (by decide), ne_of_class h (by decide)⟩
  | jsValue => exact inline ((Js.isExpression_literal value).inline c hc)
  | jsString => exact inline (Js.isInline_of_mem_escapeString hc)
  | jsRegexp => exact inline (Js.isInline_of_mem_escapeRegexp hc)
  | css =>
    have h := Css.isEscaped_of_mem_escape hc
    exact ⟨ne_of_class h (by decide), ne_of_class h (by decide)⟩

/-- The escaper for code is one of those for URLs, JS and CSS. -/
theorem isSinglePass_ofContext
    (hcode : ctx.state = .url ∨ ctx.state.isJs = true ∨ ctx.state.isCss = true) :
    (Escaper.ofContext ctx).isSinglePass = false := by
  cases hs : ctx.state with
  | url => simp [Escaper.ofContext, hs, Escaper.isSinglePass]
  | js mode =>
    cases hslash : ctx.slash <;> cases mode <;>
      simp [Escaper.ofContext, hs, hslash, Escaper.ofJs, Escaper.isSinglePass]
  | css mode => cases mode <;> simp [Escaper.ofContext, hs, Escaper.ofCss, Escaper.isSinglePass]
  | text | tagName | tag | attrName | afterName | beforeValue | plainValue | rcdata | comment
  | bogusComment =>
    rw [hs] at hcode
    rcases hcode with h | h | h <;> cases h

/-- What is added in front is a backslash, if anything. -/
theorem eq_of_mem_secondBackslash {c : Char} (hc : c ∈ ctx.secondBackslash) : c = '\\' := by
  unfold secondBackslash at hc
  split at hc
  · exact List.mem_singleton.mp hc
  · cases hc

end Context

end SafeMarkup
