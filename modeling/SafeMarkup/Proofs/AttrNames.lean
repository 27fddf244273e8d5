import SafeMarkup.Proofs.TagNames

/-!
# Untrusted names of attributes

The filter for names of attributes lets a value pass only if the attribute that it names is plain.
It knows of what trusted text has written of the name by what is held back, from the last `<` on,
as if that started a tag. But the name of an attribute can hold a `<`, and the grammar looks up the
name as a whole. So a value that has passed names a plain attribute if there is no `<` in what is
held back. If there is one, it is the name as a whole that matters (`attr_of_written_name`).
-/

namespace SafeMarkup

namespace Html

variable {start text : Text}

/-- **What the filter asks of a name** that it writes as it is. -/
theorem plain_of_filterAttrName (h : filterAttrName start text = text)
    (hname : text ≠ namePlaceholder ∨ AttrKind.ofName (start ++ text) = .plain) :
    AttrKind.ofName (start ++ text) = .plain := by
  rcases hname with hne | hplain
  · rw [filterAttrName] at h
    split at h
    · next hallowed =>
      rw [Bool.and_eq_true] at hallowed
      exact eq_of_beq hallowed.2
    · exact absurd h.symm hne
  · exact hplain

end Html

namespace Context

variable {ctx : Context} {held v rest : Text} {c : Char}

/-! ### Names of attributes -/

/-- In a tag, where the name of an attribute can start or has been started by `held`. -/
inductive AttrStart (ctx : Context) : Text → Prop where
  | between (hd : ctx.delim = none) (hs : ctx.state = .tag ∨ ctx.state = .afterName) :
      AttrStart ctx []
  | name (hd : ctx.delim = none) (hs : ctx.state = .tag) (c : Char) (rest : Text)
      (hc : Html.endsTagName c = false) (hrest : ∀ d ∈ rest, Html.endsAttrName d = false) :
      AttrStart ctx (c :: rest)

theorem AttrStart.delim (h : AttrStart ctx held) : ctx.delim = none := by
  cases h <;> assumption

theorem AttrStart.state_ne (h : AttrStart ctx held) : ctx.state ≠ .beforeValue := by
  cases h with
  | between _ hs => rcases hs with hs | hs <;> simp [hs]
  | name _ hs => simp [hs]

theorem endsTagName_of_endsAttrName (hc : Html.endsAttrName c = false) :
    Html.endsTagName c = false :=
  (Bool.or_eq_false_iff.mp hc).1

/-- No part of what is held back could be left out for another reason than a `<`. -/
theorem AttrStart.endsTagName (h : AttrStart ctx held) :
    ∀ d ∈ held, Html.endsTagName d = false := by
  cases h with
  | between => simp
  | name _ _ c rest hc hrest =>
    exact List.forall_mem_cons.mpr ⟨hc, fun d hd => endsTagName_of_endsAttrName (hrest d hd)⟩

/-- **A name goes on**, or starts, and stays held back as a whole. -/
theorem AttrStart.advance_append (h : AttrStart ctx held) (hne : v ≠ [])
    (hv : ∀ d ∈ v, Html.endsAttrName d = false) :
    let p := ctx.advance false (held ++ v)
    p.held = held ++ v ∧ AttrStart p.context p.held := by
  obtain ⟨c, rest, rfl⟩ := List.exists_cons_of_ne_nil hne
  obtain ⟨hc, hrest⟩ := List.forall_mem_cons.mp hv
  have hc := endsTagName_of_endsAttrName hc
  dsimp only
  cases h with
  | between hd hs =>
    rw [List.nil_append]
    rcases hs with hs | hs
    · have hu : ctx.Undecided (c :: rest) := .name c rest hd hs hc hrest
      -- between attributes the name starts with the value
      rw [hu.advance]
      exact ⟨rfl, .name hd hs c rest hc hrest⟩
    · -- the attribute before has no value
      have hu : ctx.inTag.Undecided (c :: rest) := .name c rest rfl rfl hc hrest
      have hstep : ctx.step false c rest = ctx.inTag.step false c rest :=
        step_afterName hd hs (hv c List.mem_cons_self)
      rw [advance_blocked (hstep.trans hu.step)]
      exact ⟨rfl, .name rfl rfl c rest hc hrest⟩
  | name hd hs d more hd' hmore =>
    have hall : ∀ e ∈ more ++ c :: rest, Html.endsAttrName e = false := by
      intro e he
      rcases List.mem_append.mp he with he | he
      · exact hmore e he
      · exact hv e he
    have hu : ctx.Undecided (d :: more ++ c :: rest) := .name d _ hd hs hd' hall
    rw [hu.advance]
    exact ⟨rfl, .name hd hs d _ hd' hall⟩

/-- A `=` ends the name. -/
theorem peek_startOfAttr_equals (hd : ctx.delim = none) (hs : ctx.state = .tag)
    (hc : Html.endsTagName c = false) (hrest : ∀ d ∈ rest, Html.endsAttrName d = false) :
    ctx.peek (c :: rest ++ ['='])
      = { ctx with attr := some (Html.AttrKind.ofName (c :: rest)), state := .beforeValue } := by
  have htake : (rest ++ ['=']).takeWhile (!Html.endsAttrName ·) = rest :=
    Text.takeWhile_run hrest rfl
  have hdrop : (rest ++ ['=']).dropWhile (!Html.endsAttrName ·) = ['='] :=
    Text.dropWhile_run hrest rfl
  have hclose : c ≠ '>' := fun e => by simp [e, Html.endsTagName] at hc
  have hstep : ctx.step true c (rest ++ ['=']) = .consumed
      { ctx with attr := some (Html.AttrKind.ofName (c :: rest)), state := .afterName }
      (c :: rest) (rest.length + 1) := by
    simp [Context.step, hd, hs, stepTag, hclose, hc, htake, hdrop]
  -- after the name the `=` is a step of its own
  have hequals (attr : Option Html.AttrKind) :
      ({ ctx with attr, state := .afterName } : Context).peek ['=']
        = { ctx with attr, state := .beforeValue } := by
    refine peek_eq_of_step (w := ['=']) ?_
    simp [Context.step, hd, stepAfterName]
  rw [List.cons_append, peek, advance_consumed hstep, Nat.add_sub_cancel, List.drop_left,
    after_context]
  exact hequals _

/-- **What the name says of the attribute**, when a `=` ends it and before. -/
theorem AttrStart.peek (h : AttrStart ctx held) (hne : held ≠ []) :
    (ctx.peek held).attr = some (Html.AttrKind.ofName held)
      ∧ (ctx.peek (held ++ ['='])).attr = some (Html.AttrKind.ofName held)
      ∧ (ctx.peek (held ++ ['='])).state = .beforeValue := by
  cases h with
  | between => exact absurd rfl hne
  | name hd hs c rest hc hrest =>
    rw [peek_startOfAttr hd hs hc hrest, peek_startOfAttr_equals hd hs hc hrest]
    exact ⟨rfl, rfl, rfl⟩

end Context

namespace Writer

variable {w : Writer} {value : Value}

/-- In a tag, before, in or after the name of an attribute? -/
def InTag (w : Writer) : Prop :=
  w.context.state = .tag ∨ w.context.state = .afterName ∨ w.context.state = .attrName

/-- In a name a value is cut down to what a name may hold. -/
theorem escapeValue_attrName (hs : w.InTag) (hd : w.context.delim = none) (value : Value) :
    w.escapeValue value = Html.filterAttrName w.nameStart (w.serializer.display value) := by
  have hback : w.context.hasPartialEscape = false := by
    refine Context.hasPartialEscape_of_state ?_
    rcases hs with hs | hs | hs <;> rw [hs] <;> rfl
  rcases hs with hs | hs | hs <;>
    simp [escapeValue, valueText, hs, hd, hback, Escaper.ofContext, Directive.ofContext,
      Directive.apply, Directive.quoting, Directive.escapeInAttr, Escaper.escape]

/-- What is held back in a tag is the start of an attribute's name. -/
theorem Valid.attrStart (h : Valid w) (hs : w.InTag)
    (hname : w.decided.state.isPartialName = false) :
    w.decided.AttrStart w.held.text := by
  have hcontent : w.context.state.isContent = false := by
    rcases hs with hs | hs | hs <;> rw [hs] <;> rfl
  have hd : w.decided.delim = none :=
    h.delim_eq.symm.trans (h.wellFormed_context.delim_of_not_isContent hcontent)
  rcases h.held with hnone | hu
  · -- nothing is held back, so the tag is between attributes
    rw [InTag, context_eq_decided hnone] at hs
    rw [hnone]
    refine .between hd (hs.imp_right fun hs => hs.resolve_right fun hs => ?_)
    rw [hs] at hname
    cases hname
  · -- of what can be undecided only a name is taken for one
    have hpeeks := hu.peek h.wellFormed
    rw [← context] at hpeeks
    have htag : w.decided.state = .tag := by
      rcases hpeeks.of_not_isContent h.wellFormed hcontent with ⟨-, hs'⟩ | ⟨htag, -⟩ | ⟨-, hs'⟩
      · rcases hs with hs | hs | hs <;> rw [hs] at hs' <;> cases hs'
      · exact htag
      · rcases hs with hs | hs | hs <;> rw [hs] at hs' <;> cases hs'
    generalize w.held.text = held at hu
    cases hu with
    | name c rest _ _ hc hrest => exact .name hd htag c rest hc hrest
    | markup _ _ hs' | commentEnd _ _ hs' => rw [htag] at hs'; cases hs'
    | reference _ hd' => rw [hd] at hd'; cases hd'
    | contentEnd _ _ _ hs' => rw [htag] at hs'; cases hs'

/-- Without a `<` in it all that is held back counts. -/
theorem nameStart_eq (htag : w.decided.AttrStart w.held.text) (hlt : '<' ∉ w.held.text) :
    w.nameStart = w.held.text := by
  have htrailing : Html.trailingName w.held.text = w.held.text :=
    Html.trailingName_append htag.endsTagName hlt []
  rw [nameStart]
  generalize hheld : w.held.text = held at htag htrailing
  cases htag with
  | between => split <;> rfl
  | name hd hs c rest hc hrest =>
    have hs' : w.context.state = .attrName := by
      rw [context, hheld, Context.peek_startOfAttr hd hs hc hrest]
    rw [hs']
    exact htrailing

/-- A value in a tag goes on with the name of an attribute, or starts one. -/
theorem Valid.attrStart_writeValue (h : Valid w) (hopen : w.closed = false) (hs : w.InTag)
    (htag : w.decided.AttrStart w.held.text) (hmemory : (w.writeValue value).HadMemory) :
    let next := (w.writeValue value).writer
    next.held.text = w.held.text ++ w.escapeValue value ∧ next.held.text ≠ []
      ∧ next.decided.AttrStart next.held.text := by
  have hready := h.ready_eq_self htag.delim htag.state_ne
  have hfilter := escapeValue_attrName hs (h.delim_eq.trans htag.delim) value
  have hne : w.escapeValue value ≠ [] := by
    rw [hfilter]
    exact Html.filterAttrName_ne_nil _ _
  have hvalue : ∀ d ∈ w.escapeValue value, Html.endsAttrName d = false := by
    rw [hfilter]
    exact fun d hd => Html.endsAttrName_eq_false (Html.isAttrNameChar_of_mem_filterAttrName hd)
  rw [writeValue_eq hopen, hready] at hmemory ⊢
  -- the value is read together with what is held back, and stays held back with it
  obtain ⟨hdecided, hheld⟩ := followed_of_advance hmemory
  obtain ⟨hall, hnext⟩ := htag.advance_append hne hvalue
  dsimp only
  rw [hdecided, hheld]
  refine ⟨hall, ?_, hnext⟩
  rw [hall]
  exact List.append_ne_nil_of_right_ne_nil _ hne

/-- A `=` ends the name, and what the name says is known before, so that it does not matter for that
whether there is memory for the `=`. -/
theorem attr_writeTrusted_equals (hopen : w.closed = false)
    (htag : w.decided.AttrStart w.held.text) (hne : w.held.text ≠ []) :
    let named := w.writeTrusted ['=']
    named.writer.context.attr = some (Html.AttrKind.ofName w.held.text)
      ∧ (named.HadMemory → named.writer.context.state = .beforeValue) := by
  obtain ⟨hattr, hattr', hstate⟩ := htag.peek hne
  dsimp only
  by_cases hmemory : (w.writeTrusted ['=']).HadMemory
  · rw [context_writeTrusted hopen hmemory]
    exact ⟨hattr', fun _ => hstate⟩
  · refine ⟨?_, fun hmemory' => absurd hmemory' hmemory⟩
    rw [writeTrusted_eq hopen] at hmemory ⊢
    obtain ⟨e, he⟩ := not_forall_not.mp hmemory
    obtain ⟨hdecided, hheld⟩ := kept_of_refused hne he
    rw [context, hdecided, hheld]
    exact hattr

/-- The value is written as it is, and not as the placeholder. -/
def WritesName (w : Writer) (value : Value) : Prop :=
  w.escapeValue value = w.serializer.display value
    ∧ (w.serializer.display value ≠ Html.namePlaceholder
      ∨ Html.AttrKind.ofName (w.nameStart ++ w.serializer.display value) = .plain)

/-- **What a name with a value in it says of the attribute.** It is what the name as a whole says,
and the attribute is plain unless there is a `<` in what trusted text has written of the name. -/
theorem attr_of_written_name (hw : Reachable w) (hopen : w.closed = false) (hs : w.InTag)
    (hname : w.WritesName value) (hmemory : (w.writeValue value).HadMemory) :
    let named := (w.writeValue value).writer.writeTrusted ['=']
    let kind := Html.AttrKind.ofName (w.held.text ++ w.serializer.display value)
    named.writer.context.attr = some kind
      ∧ (named.HadMemory → named.writer.context.state = .beforeValue)
      ∧ ('<' ∉ w.held.text → kind = .plain) := by
  have hvalid := hw.valid
  have htag := hvalid.attrStart hs (hw.isPartialName_eq hopen)
  obtain ⟨hverbatim, hplain⟩ := hname
  obtain ⟨hheld, hne, hnext⟩ := hvalid.attrStart_writeValue hopen hs htag hmemory
  obtain ⟨hattr, hstate⟩ :=
    attr_writeTrusted_equals (closed_writeValue hvalid hopen value) hnext hne
  rw [hheld, hverbatim] at hattr
  refine ⟨hattr, hstate, fun hlt => ?_⟩
  have hfilter := escapeValue_attrName hs (hvalid.delim_eq.trans htag.delim) value
  rw [← nameStart_eq htag hlt]
  exact Html.plain_of_filterAttrName (hfilter.symm.trans hverbatim) hplain

/-- The value completes the prefix of a custom attribute. -/
theorem custom_attribute_is_plain :
    let w := startingWith "<a title=x da".toList
    let value := Value.str "ta-x".toList
    let named := (w.writeValue value).writer.writeTrusted ['=']
    w.closed = false ∧ w.InTag ∧ w.WritesName value ∧ (w.writeValue value).error = none
      ∧ named.writer.context.attr = some .plain := by
  intro w value named
  have hopen : w.closed = false := by decide +kernel
  have hs : w.InTag := .inr (.inr (by decide +kernel))
  have hname : w.WritesName value := ⟨by decide +kernel, .inl (by decide +kernel)⟩
  have hsent : (w.writeValue value).error = none := by decide +kernel
  have hlt : '<' ∉ w.held.text := by decide +kernel
  obtain ⟨hattr, -, hplain⟩ := attr_of_written_name
    (reachable_startingWith "<a title=x da".toList) hopen hs hname
    (Outcome.hadMemory_of_error_eq_none hsent)
  exact ⟨hopen, hs, hname, hsent, hattr.trans (congrArg some (hplain hlt))⟩

/-- **A `<` hides from the filter what the name starts with**: that of an event handler. -/
theorem handler_named_by_value :
    let w := startingWith "<a on<x".toList
    let value := Value.str "y".toList
    let named := (w.writeValue value).writer.writeTrusted ['=']
    Reachable w ∧ w.closed = false ∧ w.InTag ∧ w.WritesName value
      ∧ (w.writeValue value).error = none ∧ named.error = none
      ∧ named.writer.context.attr = some .js :=
  ⟨reachable_startingWith "<a on<x".toList, by decide +kernel, .inr (.inr (by decide +kernel)),
    ⟨by decide +kernel, .inl (by decide +kernel)⟩, by decide +kernel, by decide +kernel,
    by decide +kernel⟩

end Writer

end SafeMarkup
