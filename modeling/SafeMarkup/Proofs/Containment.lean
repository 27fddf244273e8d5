import SafeMarkup.Proofs.CodeValue

/-!
# Untrusted values stay where they are written

A value is escaped for the place of the cursor, and it leaves the cursor there: in the same element
and the same attribute, with the same delimiter, and in a state that follows from the state before
it (`stateAfterValue`). Places in markup come first, then contents, then values of attributes;
`contains_escaped` puts them together, for every well-formed context.
-/

namespace SafeMarkup

namespace Html

/-! ### Names -/

/-- What a name is filtered to does not end it. -/
theorem endsAttrName_eq_false {c : Char} (h : isAttrNameChar c = true) :
    endsAttrName c = false := by
  have hne {d : Char} (hd : isAttrNameChar d = false) : c ≠ d := ne_of_class h hd
  have hspace : isHtmlSpace c = false := isHtmlSpace_of_class h (by decide)
  have hslash := hne (show isAttrNameChar '/' = false by decide)
  have hclose := hne (show isAttrNameChar '>' = false by decide)
  have hequals := hne (show isAttrNameChar '=' = false by decide)
  simp [endsAttrName, endsTagName, hspace, hslash, hclose, hequals]

theorem endsTagName_of_isAlphanum {c : Char} (h : c.isAlphanum = true) :
    endsTagName c = false := by
  have hname : isAttrNameChar c = true := by simp [isAttrNameChar, h]
  exact (Bool.or_eq_false_iff.mp (endsAttrName_eq_false hname)).1

/-- A filtered name consists of harmless characters. -/
theorem isAttrNameChar_of_mem_filterAttrName {start name : Text} {c : Char}
    (hc : c ∈ filterAttrName start name) : isAttrNameChar c = true := by
  unfold filterAttrName at hc
  split at hc
  · next h =>
    simp only [Bool.and_eq_true] at h
    exact List.all_eq_true.mp h.1.2 c hc
  · have hall : namePlaceholder.all isAttrNameChar = true := by decide
    exact List.all_eq_true.mp hall c hc

/-- A filtered name is never empty. -/
theorem filterAttrName_ne_nil (start name : Text) : filterAttrName start name ≠ [] := by
  unfold filterAttrName
  split
  · next h =>
    rintro rfl
    simp at h
  · decide

theorem filterTagName_ne_nil (start name : Text) : filterTagName start name ≠ [] := by
  unfold filterTagName
  split
  · next h =>
    rintro rfl
    simp at h
  · decide

/-- The filtered name of a tag is made of letters and digits. -/
theorem isAlphanum_of_mem_filterTagName {start name : Text} {c : Char}
    (hc : c ∈ filterTagName start name) : c.isAlphanum = true := by
  unfold filterTagName at hc
  split at hc
  · next h =>
    simp only [Bool.and_eq_true] at h
    exact List.all_eq_true.mp h.1.2 c hc
  · have hall : namePlaceholder.all Char.isAlphanum = true := by decide
    exact List.all_eq_true.mp hall c hc

/-- Text for HTML has no `<`, `>` or quote. -/
theorem notMem_escape {quoting : Quoting} {soft : Bool} {t : Text} {c : Char}
    (hc : isHarmless .quoted c = false) : c ∉ escape quoting soft t := by
  intro hmem
  have h := isHarmless_of_mem_escape hmem
  cases quoting with
  | quoted => rw [hc] at h; cases h
  | unquoted => simp_all [isHarmless]

end Html

namespace Context

variable {ctx : Context} {text t : Text} {options : EscapeOptions} {value : Value}

/-- `next` lies in the region in which a value at `ctx` has been written. -/
structure Contains (ctx : Context) (text : Text) (next : Context) : Prop where
  element : next.element = ctx.element
  delim : next.delim = ctx.delim
  attr : ctx.state ≠ .tag → ctx.state ≠ .afterName → next.attr = ctx.attr
  escape : next.hasPartialEscape = false
  state : next.state = ctx.stateAfterValue text

theorem contains_self (hs : ctx.state.allowsEscapes = false)
    (hstate : ctx.stateAfterValue text = ctx.state) : ctx.Contains text ctx :=
  ⟨rfl, rfl, fun _ _ => rfl, hasPartialEscape_of_state hs, hstate.symm⟩

/-- The language at the cursor moves within the value or the content that it is in. -/
theorem contains_feedAll (h : ctx.LeadsTo t (ctx.stateAfterValue text)) :
    ctx.Contains text (ctx.feedAll t) := by
  have hplace := samePlace_feedAll ctx t
  exact ⟨hplace.element, hplace.delim, fun _ _ => hplace.attr, h.escape, h.state⟩

/-! ### Markup -/

/-- A text of which every step takes one character and leads nowhere. -/
theorem peek_of_stays
    (h : ∀ c rest, (c :: rest) <:+ t → ctx.step true c rest = .consumed ctx [c] 1) :
    ctx.peek t = ctx := by
  induction t with
  | nil => rfl
  | cons c t ih =>
    rw [peek, advance_consumed (h c t (List.suffix_refl _)), after_context, List.drop_zero]
    exact ih fun d rest hrest => h d rest (hrest.trans (List.suffix_cons c t))

theorem mem_of_suffix {c : Char} {rest : Text} (h : (c :: rest) <:+ t) : c ∈ t :=
  h.subset List.mem_cons_self

/-- Text without a `<` opens no tag. -/
theorem peek_text (hd : ctx.delim = none) (hs : ctx.state = .text) (ht : '<' ∉ t) :
    ctx.peek t = ctx := by
  refine peek_of_stays fun c rest h => ?_
  have hc : c ≠ '<' := fun e => ht (e ▸ mem_of_suffix h)
  simp [step, hd, hs, stepText, hc]

/-- No comment ends without a `>`. -/
theorem peek_comment (hd : ctx.delim = none) (hs : ctx.state = .comment ∨ ctx.state = .bogusComment)
    (ht : '>' ∉ t) : ctx.peek t = ctx := by
  refine peek_of_stays fun c rest h => ?_
  have hc : '>' ∉ c :: rest := fun hmem => ht (h.subset hmem)
  rcases hs with hs | hs
  · -- without a `>` no dash ends the comment
    have hstep : ctx.stepComment true c rest = .consumed ctx [c] 1 := by
      simp only [stepComment]
      split <;> simp_all [Step.copy]
    simp only [step, hd, hs, hstep]
  · have hc' : c ≠ '>' := fun e => hc (e ▸ List.mem_cons_self)
    simp [step, hd, hs, stepBogusComment, hc']

theorem peek_tagName (hd : ctx.delim = none) (hs : ctx.state = .tagName)
    (ht : ∀ c ∈ t, Html.endsTagName c = false) : ctx.peek t = ctx := by
  refine peek_of_stays fun c rest h => ?_
  simp [step, hd, hs, stepPartialTagName, ht c (mem_of_suffix h)]

theorem peek_attrName (hd : ctx.delim = none) (hs : ctx.state = .attrName)
    (ht : ∀ c ∈ t, Html.endsAttrName c = false) : ctx.peek t = ctx := by
  refine peek_of_stays fun c rest h => ?_
  simp [step, hd, hs, stepPartialAttrName, ht c (mem_of_suffix h)]

/-- After the name of an attribute another name starts as if there were nothing before it. -/
theorem step_afterName {last : Bool} {c : Char} {rest : Text} (hd : ctx.delim = none)
    (hs : ctx.state = .afterName) (hc : Html.endsAttrName c = false) :
    ctx.step last c rest = ctx.inTag.step last c rest := by
  simp only [Html.endsAttrName, Html.endsTagName, Bool.or_eq_false_iff, beq_eq_false_iff_ne] at hc
  simp [step, hd, hs, inTag, stepAfterName, hc]

/-- After the space behind a name, the next name starts another attribute. -/
theorem peek_afterName (hd : ctx.delim = none) (hs : ctx.state = .afterName) (hne : t ≠ [])
    (ht : ∀ c ∈ t, Html.endsAttrName c = false) : ctx.peek t = ctx.inTag.peek t := by
  rcases t with _ | ⟨c, rest⟩
  · exact absurd rfl hne
  rw [peek, peek, advance_cons, advance_cons, step_afterName hd hs (ht c List.mem_cons_self)]

/-- In a tag a name starts an attribute. -/
theorem contains_peek_tag (hw : ctx.WellFormed) (hd : ctx.delim = none) (hs : ctx.state = .tag)
    (hne : t ≠ []) (ht : ∀ c ∈ t, Html.endsAttrName c = false) :
    ctx.Contains text (ctx.peek t) := by
  rcases t with _ | ⟨c, rest⟩
  · exact absurd rfl hne
  have hc : Html.endsTagName c = false := (Bool.or_eq_false_iff.mp (ht c List.mem_cons_self)).1
  have hname : ctx.Undecided (c :: rest) :=
    .name c rest hd hs hc fun d hd => ht d (List.mem_cons_of_mem c hd)
  generalize hnext : ctx.peek (c :: rest) = next
  -- of what can be undecided only a name stands in a tag
  cases hnext ▸ hname.peek hw with
  | name _ _ kind =>
    exact ⟨rfl, rfl, fun h => absurd hs h, hasPartialEscape_of_state rfl,
      by simp [stateAfterValue, hs]⟩
  | markup _ hs' => rw [hs] at hs'; cases hs'
  | comment _ hs' => rw [hs] at hs'; cases hs'
  | value hd' => rw [hd] at hd'; cases hd'
  | content _ hs' => rw [hs] at hs'; cases hs'

/-! ### All places together -/

/-- What is written for a value at `ctx`. -/
def escapedFor (ctx : Context) (options : EscapeOptions) (value : Value) : Text :=
  (Directive.ofContext ctx).apply options
    (Writer.valueText .default (Escaper.ofContext ctx) value)

/-- Outside of values of attributes a value is escaped once. -/
theorem escapedFor_eq (hd : ctx.delim = none) (hs : ctx.state ≠ .beforeValue) :
    ctx.escapedFor options value = ctx.escapedText options value :=
  apply_eq hd hs

/-- Where nothing is quoted, a value is escaped as the text of a page. -/
theorem escapedFor_html (hd : ctx.delim = none) (hne : ctx.state ≠ .beforeValue)
    (hs : ctx.state.allowsEscapes = false) (he : Escaper.ofContext ctx = .html) :
    ctx.escapedFor options value = Html.escape .quoted options.soft value.display := by
  rw [escapedFor_eq hd hne, escapedText_eq hs]
  simp [he, Escaper.escape, Writer.valueText, Serializer.default]

/-- In code what is written for a value is read as the value escaped once. -/
theorem peek_escapedFor (hcode : ctx.InCode) :
    ctx.peek (ctx.escapedFor options value) = ctx.feedAll (ctx.escapedText options value) :=
  congrArg Progress.context (advance_apply hcode fun _ hc =>
    ne_of_mem_escape (isSinglePass_ofContext hcode) hc)

/-- A plain attribute value is escaped for the quotes around it. -/
theorem escapedFor_plainValue {delim : Delim} (hd : ctx.delim = some delim)
    (hs : ctx.state = .plainValue) :
    ctx.escapedFor options value = Html.escape delim.quoting options.soft value.display := by
  have hback : ctx.hasPartialEscape = false := hasPartialEscape_of_state (by rw [hs]; rfl)
  have he : Escaper.ofContext ctx = .html := by simp [Escaper.ofContext, hs]
  cases delim <;>
    simp [escapedFor, Directive.ofContext, Directive.apply, Directive.escapeInAttr,
      Directive.quoting, hd, hback, he, Delim.quoting, Escaper.isSinglePass, Escaper.escape,
      Writer.valueText, Serializer.default]

/-- Values are contained in the text of a page. -/
theorem contains_text (hw : ctx.WellFormed) (hs : ctx.state.isText = true) :
    ctx.Contains value.display (ctx.peek (ctx.escapedFor options value)) := by
  have hd : ctx.delim = none := by rw [hw.of_text hs]
  have hself (hpeek : ctx.peek (ctx.escapedFor options value) = ctx)
      (hescapes : ctx.state.allowsEscapes = false)
      (hafter : ctx.stateAfterValue value.display = ctx.state) :
      ctx.Contains value.display (ctx.peek (ctx.escapedFor options value)) := by
    rw [hpeek]
    exact contains_self hescapes hafter
  cases h : ctx.state with
  | text =>
    refine hself (peek_text hd h ?_) (by rw [h]; rfl) (by simp [stateAfterValue, h])
    rw [escapedFor_html hd (by simp [h]) (by rw [h]; rfl) (by simp [Escaper.ofContext, h])]
    exact Html.notMem_escape (by decide)
  | comment =>
    refine hself (peek_comment hd (Or.inl h) ?_) (by rw [h]; rfl) (by simp [stateAfterValue, h])
    rw [escapedFor_html hd (by simp [h]) (by rw [h]; rfl) (by simp [Escaper.ofContext, h])]
    exact Html.notMem_escape (by decide)
  | bogusComment =>
    refine hself (peek_comment hd (Or.inr h) ?_) (by rw [h]; rfl) (by simp [stateAfterValue, h])
    rw [escapedFor_html hd (by simp [h]) (by rw [h]; rfl) (by simp [Escaper.ofContext, h])]
    exact Html.notMem_escape (by decide)
  | tagName =>
    have htext : ctx.escapedFor options value
        = Html.filterTagName options.nameStart value.display := by
      rw [escapedFor_eq hd (by simp [h]), escapedText_eq (by rw [h]; rfl)]
      simp [Escaper.ofContext, h, Escaper.escape, Writer.valueText, Serializer.default]
    refine hself (peek_tagName hd h fun c hc => ?_) (by rw [h]; rfl)
      (by simp [stateAfterValue, h])
    -- a name that has been filtered does not end the name it continues
    rw [htext] at hc
    exact Html.endsTagName_of_isAlphanum (Html.isAlphanum_of_mem_filterTagName hc)
  | _ => rw [h] at hs; cases hs

/-- What is written for a value in a tag. -/
theorem escapedFor_name (hd : ctx.delim = none)
    (hs : ctx.state = .tag ∨ ctx.state = .attrName ∨ ctx.state = .afterName) :
    ctx.escapedFor options value ≠ []
      ∧ ∀ c ∈ ctx.escapedFor options value, Html.endsAttrName c = false := by
  have htext : ctx.escapedFor options value
      = Html.filterAttrName options.nameStart value.display := by
    rcases hs with hs | hs | hs <;>
    · rw [escapedFor_eq hd (by simp [hs]), escapedText_eq (by rw [hs]; rfl)]
      simp [Escaper.ofContext, hs, Escaper.escape, Writer.valueText, Serializer.default]
  rw [htext]
  exact ⟨Html.filterAttrName_ne_nil _ _,
    fun c hc => Html.endsAttrName_eq_false (Html.isAttrNameChar_of_mem_filterAttrName hc)⟩

theorem contains_tag (hw : ctx.WellFormed) (hd : ctx.delim = none)
    (hs : ctx.state = .tag ∨ ctx.state = .attrName ∨ ctx.state = .afterName) :
    ctx.Contains value.display (ctx.peek (ctx.escapedFor options value)) := by
  have hwritten : ctx.escapedFor options value ≠ [] ∧ _ := escapedFor_name hd hs
  obtain ⟨hne, hname⟩ := hwritten
  rcases hs with hs | hs | hs
  · exact contains_peek_tag hw hd hs hne hname
  · rw [peek_attrName hd hs hname]
    exact contains_self (by rw [hs]; rfl) (by simp [stateAfterValue, hs])
  · -- the attribute before has no value, and the value is the name of the next one
    rw [peek_afterName hd hs hne hname]
    have h : ctx.inTag.Contains value.display _ :=
      contains_peek_tag (.tag ctx.element) rfl rfl hne hname
    exact ⟨h.element, h.delim.trans hd.symm, fun _ h => absurd hs h, h.escape,
      h.state.trans (by simp [stateAfterValue, inTag, hs])⟩

/-- Where single characters do not matter nothing is read. -/
theorem feedAll_of_isHtml (hs : ctx.state = .rcdata ∨ ctx.state = .plainValue) (t : Text) :
    ctx.feedAll t = ctx := by
  induction t with
  | nil => rfl
  | cons c t ih =>
    have hfeed : ctx.feed c = ctx := by rcases hs with hs | hs <;> simp [feed, hs]
    rw [feedAll_cons, hfeed, ih]

/-- The languages of contents and of values. -/
theorem code_or_html (hs : ctx.state.isContent = true) :
    (ctx.state = .url ∨ ctx.state.isJs = true ∨ ctx.state.isCss = true)
      ∨ ctx.state = .rcdata ∨ ctx.state = .plainValue := by
  cases h : ctx.state <;> simp_all [State.isContent, State.isJs, State.isCss]

theorem contains_content (hw : ctx.WellFormed) (hd : ctx.delim = none)
    (hs : ctx.state.isContent = true) :
    ctx.Contains value.display (ctx.peek (ctx.escapedFor options value)) := by
  have hne : ctx.state ≠ .beforeValue := by
    intro h
    rw [h] at hs
    cases hs
  -- code is read by its language, all other content is left as it is
  rcases code_or_html hs with hcode | hhtml
  · rw [peek_escapedFor hcode]
    exact contains_feedAll (leadsTo_escapedText hw.remembers hcode options value)
  · have hescapes : ctx.state.allowsEscapes = false := by rcases hhtml with h | h <;> rw [h] <;> rfl
    have hescaper : Escaper.ofContext ctx = .html := by
      rcases hhtml with h | h <;> simp [Escaper.ofContext, h]
    have htext : '<' ∉ ctx.escapedFor options value := by
      rw [escapedFor_html hd hne hescapes hescaper]
      exact Html.notMem_escape (by decide)
    rw [peek, advance_content hd hs htext, feedAll_of_isHtml hhtml]
    exact contains_self hescapes (by rcases hhtml with h | h <;> simp [stateAfterValue, h])

theorem contains_value (hw : ctx.WellFormed) {delim : Delim} (hd : ctx.delim = some delim) :
    ctx.Contains value.display (ctx.peek (ctx.escapedFor options value)) := by
  obtain ⟨⟨kind, ha⟩, hentry, hs⟩ := hw.of_delim hd
  -- a value that is code is followed by its characters, another one only to its end
  rcases code_or_html hs with hcode | hhtml
  · rw [peek_escapedFor hcode]
    exact contains_feedAll (leadsTo_escapedText hw.remembers hcode options value)
  · have hplain : ctx.state = .plainValue := by
      rcases hhtml with h | h
      · cases kind <;> simp [h, attrValue, ha, State.entry] at hentry
      · exact h
    have htext : ∀ c ∈ ctx.escapedFor options value, delim.endsAt c = false := by
      intro c hc
      rw [escapedFor_plainValue hd hplain] at hc
      exact Delim.endsAt_of_isHarmless (Html.isHarmless_of_mem_escape hc)
    rw [peek, advance_plainValue hd hplain htext]
    exact contains_self (by rw [hplain]; rfl) (by simp [stateAfterValue, hplain])

/-- **A value stays where it is written**, for every place and every value. -/
theorem contains_escaped (hw : ctx.WellFormed) (hs : ctx.state ≠ .beforeValue)
    (options : EscapeOptions) (value : Value) :
    ctx.Contains value.display (ctx.peek (ctx.escapedFor options value)) := by
  cases hd : ctx.delim with
  | some delim => exact contains_value hw hd
  | none =>
    cases h : ctx.state with
    | text | tagName | comment | bogusComment => exact contains_text hw (by rw [h]; rfl)
    | tag => exact contains_tag hw hd (Or.inl h)
    | attrName => exact contains_tag hw hd (Or.inr (Or.inl h))
    | afterName => exact contains_tag hw hd (Or.inr (Or.inr h))
    | beforeValue => exact absurd h hs
    | plainValue | url | rcdata => exact contains_content hw hd (by rw [h]; rfl)
    | js mode | css mode => exact contains_content hw hd (by rw [h]; rfl)

end Context

namespace Writer

variable {w : Writer}

/-- What is written for a value depends on the writer only through its context and its options. -/
theorem escapeValue_eq (hserializer : w.serializer = .default) (value : Value) :
    w.escapeValue value = w.context.escapedFor
      { soft := w.soft, schemes := w.schemes, nameStart := w.nameStart } value := by
  rw [escapeValue, hserializer]
  rfl

/-- **Containment.** A value leaves a writer in the region of the grammar for which it was escaped,
unless there is no memory for it. Before the value of an attribute that region is a value in
quotes. -/
theorem contains_writeValue (hw : Reachable w) (hserializer : w.serializer = .default)
    (hopen : w.closed = false) (hheld : w.held.text = [] ∨ w.decided.inAttrValue = true)
    (value : Value) (hlimit : ∀ e, (w.writeValue value).error ≠ some (.heldTextLimit e)) :
    w.context.beginValue.1.Contains value.display (w.writeValue value).writer.context := by
  have hv := hw.valid
  have hp := prepares hv
  obtain ⟨hdecided, hnone⟩ := decided_of_prepares hv hp hheld
  have hserializer' : w.ready.serializer = w.serializer := congrArg (·.1) (options_of_prepares hp)
  rw [writeValue_eq hopen] at hlimit ⊢
  generalize w.ready = w' at *
  -- before the value the quotes are opened and nothing is held back
  have hcontext : w'.context = w.context.beginValue.1 := by
    rw [context, hnone, Context.peek_nil, hdecided]
  have hwf : w'.context.WellFormed := by
    rw [hcontext]
    exact (hv.wellFormed.advance true _).beginValue
  have hstate : w'.context.state ≠ .beforeValue := by
    rw [hcontext]
    exact w.context.state_beginValue
  rw [context_advance hlimit, hnone, List.nil_append, hdecided, ← hcontext,
    escapeValue_eq (hserializer'.trans hserializer)]
  exact Context.contains_escaped hwf hstate _ value

/-- A value after an incomplete reference to a backslash, which would escape its first character. -/
theorem contained_after_reference :
    let w := startingWith "<a onclick=\"f('&#92".toList
    let value := Value.str "'\"> <".toList
    w.closed = false ∧ w.held.text = "&#92".toList ∧ w.decided.inAttrValue = true
      ∧ w.context.hasPartialEscape = true ∧ (w.writeValue value).error = none
      ∧ w.context.beginValue.1.Contains value.display (w.writeValue value).writer.context := by
  have hsent : ((startingWith "<a onclick=\"f('&#92".toList).writeValue
      (.str "'\"> <".toList)).error = none := by decide +kernel
  have hin : (startingWith "<a onclick=\"f('&#92".toList).decided.inAttrValue = true := by
    decide +kernel
  refine ⟨by decide +kernel, by decide +kernel, hin, by decide +kernel, hsent, ?_⟩
  exact contains_writeValue (reachable_startingWith "<a onclick=\"f('&#92".toList) rfl
    (by decide +kernel) (Or.inr hin) _ fun e he => Option.some_ne_none _ (he.symm.trans hsent)

end Writer

end SafeMarkup
