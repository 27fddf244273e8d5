import SafeMarkup.Proofs.Containment
import SafeMarkup.Proofs.Coherence

/-!
# Values and the end tags of special elements

The content of a special element ends at its end tag and nowhere else. A value has no `<`, so on its
own it never ends the content. But it comes after what is held back, and that can be the start of an
end tag which the value, or the text after it, completes (`inContent_peek_iff`). Nothing prevents
that, unlike in the value of an attribute, where references are completed before an untrusted value.
-/

namespace SafeMarkup

/-- Does the text start with the end tag of the element, at least up to the end of the name? -/
def Html.Element.Closes (element : Html.Element) (t : Text) : Prop :=
  ∃ name d rest, t = '<' :: '/' :: (name ++ d :: rest) ∧ Text.sameName name element.tagName = true
    ∧ Html.endsTagName d = true

namespace Html.Element

variable {element : Element} {t rest : Text}

theorem lower_tagName : Text.lower element.tagName = element.tagName := by
  cases element <;> decide

theorem length_of_sameName {name : Text} (h : Text.sameName name element.tagName = true) :
    name.length = element.tagName.length := by
  simpa using congrArg List.length (eq_of_beq h)

/-- A text that is as long as the name could be the end tag only if it is the name. -/
theorem couldEnd_iff {name : Text} (h : name.length = element.tagName.length) :
    element.couldEnd name = true ↔ Text.sameName name element.tagName = true := by
  rw [Text.sameName, lower_tagName, couldEnd, beq_iff_eq]
  generalize element.tagName = other at h
  induction name generalizing other with
  | nil =>
    rw [List.length_nil] at h
    simp [List.eq_nil_of_length_eq_zero h.symm, Text.lower]
  | cons c name ih =>
    rcases other with _ | ⟨d, other⟩
    · cases h
    have := ih other (by simpa using h)
    simp_all [Text.lower]

/-- An end tag stays complete when text is added. -/
theorem Closes.append (h : element.Closes t) (more : Text) : element.Closes (t ++ more) := by
  obtain ⟨name, d, rest, rfl, hname, hd⟩ := h
  exact ⟨name, d, rest ++ more, by simp, hname, hd⟩

/-- Only the letters of an end tag matter, not their case. -/
theorem closes_iff_lower :
    element.Closes t ↔ ∃ tag d rest, t = tag ++ d :: rest
      ∧ Text.lower tag = '<' :: '/' :: element.tagName ∧ endsTagName d = true := by
  constructor
  · rintro ⟨name, d, rest, rfl, hname, hd⟩
    have hlower := eq_of_beq hname
    rw [lower_tagName] at hlower
    exact ⟨'<' :: '/' :: name, d, rest, rfl, congrArg ('<' :: '/' :: ·) hlower, hd⟩
  · rintro ⟨tag, d, rest, rfl, htag, hd⟩
    obtain ⟨c, more, rfl, hc, hmore⟩ := List.map_eq_cons_iff.mp htag
    obtain ⟨c', name, rfl, hc', hname⟩ := List.map_eq_cons_iff.mp hmore
    obtain rfl := eq_of_toLower_eq hc (by decide)
    obtain rfl := eq_of_toLower_eq hc' (by decide)
    refine ⟨name, d, rest, rfl, ?_, hd⟩
    rw [Text.sameName, lower_tagName, beq_iff_eq]
    exact hname

/-- The two ways of putting what a step in content looks for. -/
theorem closes_iff {s : Text} :
    element.Closes ('<' :: s) ↔ ∃ more d rest, s = '/' :: more ∧ element.couldEnd more = true
      ∧ more.drop element.tagName.length = d :: rest ∧ Html.endsTagName d = true := by
  constructor
  · rintro ⟨name, d, rest, heq, hname, hd⟩
    obtain ⟨-, rfl⟩ := List.cons.inj heq
    have hlen := length_of_sameName hname
    refine ⟨name ++ d :: rest, d, rest, rfl, ?_, by rw [← hlen]; simp, hd⟩
    rw [couldEnd_append (by omega)]
    exact (couldEnd_iff hlen).mpr hname
  · -- the name is what the comparison has gone over
    rintro ⟨more, d, rest, rfl, hcould, hdrop, hd⟩
    have hlen := congrArg List.length hdrop
    rw [List.length_drop, List.length_cons] at hlen
    have hsplit : more.take element.tagName.length ++ d :: rest = more := by
      rw [← hdrop, List.take_append_drop]
    have htake : (more.take element.tagName.length).length = element.tagName.length := by
      rw [List.length_take]
      omega
    refine ⟨more.take element.tagName.length, d, rest, by rw [hsplit], ?_, hd⟩
    rw [← couldEnd_iff htake]
    rw [← hsplit] at hcould
    exact couldEnd_of_append hcould

/-- Is the text a start of the element's end tag, in any case and without what ends the name? -/
structure StartsEndTag (element : Element) (t : Text) : Prop where
  ne_nil : t ≠ []
  isPrefix : Text.lower t <+: '<' :: '/' :: element.tagName

instance : Decidable (element.StartsEndTag t) :=
  decidable_of_iff (t ≠ [] ∧ Text.lower t <+: '<' :: '/' :: element.tagName)
    ⟨fun h => ⟨h.1, h.2⟩, fun h => ⟨h.ne_nil, h.isPrefix⟩⟩

theorem StartsEndTag.toLower_mem (h : element.StartsEndTag t) {c : Char} (hc : c ∈ t) :
    c.toLower ∈ '<' :: '/' :: element.tagName :=
  h.isPrefix.subset (List.mem_map_of_mem hc)

/-- A text that is no longer than the name could be the name if it is a start of it. -/
theorem couldEnd_iff_isPrefix (h : rest.length ≤ element.tagName.length) :
    element.couldEnd rest = true ↔ Text.lower rest <+: element.tagName := by
  rw [couldEnd]
  generalize element.tagName = name at h
  induction rest generalizing name with
  | nil => simp [Text.lower]
  | cons c rest ih =>
    rcases name with _ | ⟨d, name⟩
    · cases h
    have := ih name (by simpa using h)
    simp_all [Text.lower, List.cons_prefix_cons]

/-- The two ways of putting what may be the start of an end tag. -/
theorem startsEndTag_iff :
    element.StartsEndTag t ↔ ∃ rest, t = '<' :: rest ∧ (rest = [] ∨ ∃ more, rest = '/' :: more
      ∧ element.couldEnd more = true ∧ more.length ≤ element.tagName.length) := by
  constructor
  · rintro ⟨hne, hprefix⟩
    rcases t with _ | ⟨c, rest⟩
    · exact absurd rfl hne
    rw [Text.lower, List.map_cons, List.cons_prefix_cons] at hprefix
    obtain rfl := eq_of_toLower_eq hprefix.1 (by decide)
    refine ⟨rest, rfl, ?_⟩
    rcases rest with _ | ⟨d, more⟩
    · exact .inl rfl
    have hmore := hprefix.2
    rw [List.map_cons, List.cons_prefix_cons] at hmore
    obtain rfl := eq_of_toLower_eq hmore.1 (by decide)
    have hlen : more.length ≤ element.tagName.length := by simpa using hmore.2.length_le
    exact .inr ⟨more, rfl, (couldEnd_iff_isPrefix hlen).mpr hmore.2, hlen⟩
  · rintro ⟨rest, rfl, rfl | ⟨more, rfl, hcould, hlen⟩⟩
    · exact ⟨List.cons_ne_nil _ _, by simp [Text.lower]⟩
    · refine ⟨List.cons_ne_nil _ _, ?_⟩
      simpa [Text.lower, List.cons_prefix_cons] using (couldEnd_iff_isPrefix hlen).mp hcould

theorem StartsEndTag.length_le (h : element.StartsEndTag t) :
    t.length ≤ element.tagName.length + 2 := by
  simpa using h.isPrefix.length_le

/-- Such a start has a `<` at its start and nowhere else. -/
theorem StartsEndTag.exists_lt (h : element.StartsEndTag t) : ∃ s, t = '<' :: s ∧ '<' ∉ s := by
  obtain ⟨s, rfl, rfl | ⟨more, rfl, hcould, hlen⟩⟩ := startsEndTag_iff.mp h
  · exact ⟨[], rfl, List.not_mem_nil⟩
  · have hmore := notMem_of_couldEnd (c := '<') (by decide) hcould hlen
    exact ⟨'/' :: more, rfl, by simpa using hmore⟩

end Html.Element

namespace Context

variable {ctx next : Context} {element : Html.Element} {t s : Text}

/-- Is the cursor in the content of this element? -/
structure InContent (element : Html.Element) (ctx : Context) : Prop where
  delim : ctx.delim = none
  element : ctx.element = some element
  state : ctx.state.isContent = true

/-- JS code outside of attributes is the content of a script. -/
theorem WellFormed.inContent_script (h : ctx.WellFormed) (hd : ctx.delim = none)
    (hjs : ctx.state.isJs = true) : ctx.InContent .script := by
  refine ⟨hd, h.element_of_js hd hjs, ?_⟩
  cases hs : ctx.state <;> simp_all [State.isJs, State.isContent]

theorem WellFormed.eq_script (h : ctx.WellFormed) (hjs : ctx.state.isJs = true)
    (hin : ctx.InContent element) : element = .script :=
  Option.some.inj (hin.element.symm.trans (h.element_of_js hin.delim hjs))

theorem InContent.feedAll (h : ctx.InContent element) (t : Text) :
    (ctx.feedAll t).InContent element := by
  have hplace := samePlace_feedAll ctx t
  exact ⟨hplace.delim.trans h.delim, hplace.element.trans h.element, hplace.isContent.trans h.state⟩

/-! ### Outside of special elements -/

/-- A step that does not start at a `<` enters no special element. -/
theorem Next.element_eq_none {c : Char} (h : ctx.Next c next) (he : ctx.element = none)
    (hc : c ≠ '<') : next.element = none := by
  have hclose : ctx.closeTag.element = none := he
  cases h with
  | inValue _ _ _ d => exact (samePlace_feed ctx d).element.trans he
  | valueEnd _ _ _ _ hnext => rcases hnext with rfl | rfl <;> exact he
  | tagStart _ _ hlt => exact absurd hlt hc
  | tagNameEnd _ _ _ hnext => rcases hnext with rfl | rfl <;> rfl
  | unquotedStart _ _ d => exact (samePlace_feed (ctx.attrValue .spaceOrTagEnd) d).element.trans he
  | inContent _ _ d => exact (samePlace_feed ctx d).element.trans he
  | contentEnd => rfl
  | inText | markup | inTagName | inTag | attr | tagClose | inAttrName | afterName | noValue
  | nextAttr | beforeValue | valueStart | inComment | commentEnd => exact he

/-- **Without a `<` no special element is entered.** -/
theorem element_advance {last : Bool} (he : ctx.element = none) (ht : '<' ∉ t) :
    (ctx.advance last t).context.element = none := by
  induction ctx, t using advance_induction last with
  | nil => exact he
  | consumed ctx c rest next w u hstep ih =>
    rw [List.mem_cons, not_or] at ht
    rw [advance_consumed hstep]
    exact ih ((next_of_step hstep).element_eq_none he (Ne.symm ht.1))
      fun hmem => ht.2 (List.mem_of_mem_drop hmem)
  | blocked ctx c rest next hstep =>
    rw [advance_blocked hstep]
    cases (blocked_of_step hstep).2.1 with
    | same | tag | value => exact he

/-! ### Special elements -/

/-- In an element that needs an end tag, a `<` is looked at for it. -/
theorem InContent.step_lt {last : Bool} (h : ctx.InContent element)
    (hend : element.hasEndTag = true) :
    ctx.step last '<' s = ctx.stepContentMarkup element last s := by
  rw [step_isContent h.delim h.state]
  simp [stepContent, h.element, hend]

/-- Without a `<` a text stays in the content. -/
theorem InContent.peek (h : ctx.InContent element) (ht : '<' ∉ t) :
    (ctx.peek t).InContent element := by
  rw [Context.peek, advance_content h.delim h.state ht]
  exact h.feedAll t

/-- A complete end tag is read up to the end of its name. -/
theorem InContent.peek_endTag {tag : Text} {c : Char} (h : ctx.InContent element)
    (hend : element.hasEndTag = true) (htag : Text.lower tag = '<' :: '/' :: element.tagName)
    (hc : Html.endsTagName c = true) :
    ctx.peek (tag ++ c :: t) = Context.peek { state := .tag } (c :: t) := by
  have hcloses : element.Closes (tag ++ c :: t) :=
    Html.Element.closes_iff_lower.mpr ⟨tag, c, t, rfl, htag, hc⟩
  obtain ⟨d, s, rfl, hd, -⟩ := List.map_eq_cons_iff.mp htag
  obtain rfl := eq_of_toLower_eq hd (by decide)
  rw [List.cons_append] at hcloses ⊢
  obtain ⟨more, e, rest, heq, hcould, hdrop, he⟩ := Html.Element.closes_iff.mp hcloses
  have hstep : ctx.step true '<' ('/' :: more)
      = .copy { state := .tag } ('<' :: '/' :: more) (2 + element.tagName.length) := by
    rw [h.step_lt hend]
    simp [stepContentMarkup, hcould, hdrop, he]
  have hlen : s.length = 2 + element.tagName.length - 1 := by
    have := congrArg List.length htag
    simp only [Text.length_lower, List.length_cons] at this
    omega
  rw [heq, Context.peek, advance_consumed hstep, after_context, ← heq, ← hlen, List.drop_left]
  rfl

/-- A complete end tag leaves the element. -/
theorem InContent.peek_closes (h : ctx.InContent element) (hend : element.hasEndTag = true)
    (hs : '<' ∉ s) (hclose : element.Closes ('<' :: s)) :
    (ctx.peek ('<' :: s)).element = none := by
  obtain ⟨tag, c, rest, heq, htag, hc⟩ := Html.Element.closes_iff_lower.mp hclose
  rw [heq, h.peek_endTag hend htag hc]
  -- after the end tag nothing enters a special element again
  refine element_advance rfl fun hmem => hs ?_
  rcases tag with _ | ⟨d, name⟩
  · cases htag
  obtain ⟨-, rfl⟩ := List.cons.inj heq
  exact List.mem_append_right _ hmem

/-- Without a complete end tag a `<` is read as one more character, unless there is to be more of
the end tag. -/
theorem InContent.step_eq_feed {last : Bool} (h : ctx.InContent element)
    (hend : element.hasEndTag = true) (hopen : ¬ element.Closes ('<' :: s))
    (hgoes : last = true ∨ ¬ element.StartsEndTag ('<' :: s)) :
    ctx.step last '<' s = .consumed (ctx.feed '<') ['<'] 1 := by
  -- where the text may go on, there is no start of an end tag by assumption
  have hlast (hrest : s = [] ∨ ∃ more, s = '/' :: more ∧ element.couldEnd more = true
      ∧ more.length ≤ element.tagName.length) : last = true :=
    hgoes.resolve_right fun hnot =>
      hnot (Html.Element.startsEndTag_iff.mpr ⟨s, rfl, hrest⟩)
  rw [h.step_lt hend]
  rw [Html.Element.closes_iff] at hopen
  unfold stepContentMarkup
  dsimp only
  -- nothing after the `<`, or a character that may be the slash of the end tag
  split
  · rw [hlast (.inl rfl)]
    rfl
  · next c more =>
    split
    · next hcould =>
      obtain ⟨rfl, hcould⟩ := hcould
      split
      · next hdrop =>
        rw [hlast (.inr ⟨more, rfl, hcould, List.drop_eq_nil_iff.mp hdrop⟩)]
        rfl
      · next d rest hdrop =>
        split
        · next hd => exact absurd ⟨more, d, rest, rfl, hcould, hdrop, hd⟩ hopen
        · rfl
    · rfl

/-- Without a complete end tag all of the text is content, from the `<` on. -/
theorem InContent.advance_eq_feedAll {last : Bool} (h : ctx.InContent element)
    (hend : element.hasEndTag = true) (hs : '<' ∉ s) (hopen : ¬ element.Closes ('<' :: s))
    (hgoes : last = true ∨ ¬ element.StartsEndTag ('<' :: s)) :
    ctx.advance last ('<' :: s) = ⟨ctx.feedAll ('<' :: s), '<' :: s, []⟩ := by
  have hin := h.feedAll ['<']
  rw [advance_consumed (h.step_eq_feed hend hopen hgoes), List.drop_zero]
  change (((ctx.feedAll ['<']).advance last s).after ['<']) = _
  rw [advance_content hin.delim hin.state hs]
  rfl

/-- **The content goes on exactly as long as the end tag is not complete.** -/
theorem inContent_peek_iff (h : ctx.InContent element) (hend : element.hasEndTag = true)
    (hs : '<' ∉ s) :
    (ctx.peek ('<' :: s)).InContent element ↔ ¬ element.Closes ('<' :: s) := by
  constructor
  · intro hin hclose
    have hnone := h.peek_closes hend hs hclose
    rw [hin.element] at hnone
    cases hnone
  · intro hopen
    rw [Context.peek, h.advance_eq_feedAll hend hs hopen (.inl rfl)]
    exact h.feedAll ('<' :: s)

end Context

namespace Escaper

/-- **No escaper writes a `<`**, apart from literals of a serializer that do. -/
theorem lt_notMem_escape {escaper : Escaper} {options : EscapeOptions} {t : Text}
    (hliteral : escaper = .jsValue → '<' ∉ t) : '<' ∉ escaper.escape options t := by
  intro hmem
  cases escaper with
  | html => exact Html.notMem_escape (by decide) hmem
  | tagName => exact absurd (Html.isAlphanum_of_mem_filterTagName hmem) (by decide)
  | attrName => exact absurd (Html.isAttrNameChar_of_mem_filterAttrName hmem) (by decide)
  | url part => exact absurd (isNormal_of_mem_escape hmem) (by decide)
  | jsValue => exact hliteral rfl hmem
  | jsString => exact absurd (Js.isInline_of_mem_escapeString hmem) (by decide)
  | jsRegexp => exact absurd (Js.isInline_of_mem_escapeRegexp hmem) (by decide)
  | css => exact absurd (Css.isEscaped_of_mem_escape hmem) (by decide)

end Escaper

namespace Context

variable {ctx : Context} {element : Html.Element} {t : Text}

/-- Only content leads to content without a decision. -/
theorem InContent.of_peeks {next : Context} (hn : ctx.Peeks next) (h : next.InContent element) :
    ctx.InContent element := by
  have hs := h.state
  cases hn with
  | markup _ _ state hstate => rcases hstate with rfl | rfl | rfl <;> cases hs
  | name => cases hs
  | comment _ hs' => rw [hs'] at hs; cases hs
  | value hd s =>
    have hnone := (samePlace_feedAll ctx s).delim.symm.trans h.delim
    rw [hnone] at hd
    cases hd
  | content hd hs' t =>
    exact ⟨hd, (samePlace_feedAll ctx t).element.symm.trans h.element, hs'⟩

/-- What is undecided in content is the start of its end tag. -/
theorem InContent.startsEndTag (h : ctx.InContent element) (hu : ctx.Undecided t) :
    element.hasEndTag = true ∧ element.StartsEndTag t := by
  have hs := h.state
  cases hu with
  | markup _ _ hs' => rw [hs'] at hs; cases hs
  | name _ _ _ hs' => rw [hs'] at hs; cases hs
  | reference _ hd => rw [h.delim] at hd; cases hd
  | commentEnd _ _ hs' => rw [hs'] at hs; cases hs
  | contentEnd _ rest _ _ he hend hrest =>
    cases he.symm.trans h.element
    exact ⟨hend, Html.Element.startsEndTag_iff.mpr ⟨rest, rfl, hrest⟩⟩

theorem InContent.undecided_of_startsEndTag (h : ctx.InContent element)
    (hend : element.hasEndTag = true) (hstarts : element.StartsEndTag t) : ctx.Undecided t := by
  obtain ⟨rest, rfl, hrest⟩ := Html.Element.startsEndTag_iff.mp hstarts
  exact .contentEnd element rest h.delim h.state h.element hend hrest

/-- What is undecided in content is a `<` with text after it that has none. -/
theorem InContent.undecided (h : ctx.InContent element) (hu : ctx.Undecided t) :
    ∃ s, t = '<' :: s ∧ '<' ∉ s :=
  (h.startsEndTag hu).2.exists_lt

end Context

namespace Writer

variable {w : Writer} {element : Html.Element}

/-- In content, what is held back is the start of an end tag. -/
theorem Valid.of_inContent (h : Valid w) (hin : w.context.InContent element) :
    w.decided.InContent element
      ∧ (w.held.text = [] ∨ ∃ s, w.held.text = '<' :: s ∧ '<' ∉ s) := by
  have hdecided : w.decided.InContent element := by
    rcases h.peeks with heq | hpeeks
    · rwa [heq] at hin
    · exact hin.of_peeks hpeeks
  refine ⟨hdecided, ?_⟩
  rcases h.held with hnone | hu
  · exact Or.inl hnone
  · exact Or.inr (hdecided.undecided hu)

/-- In content nothing is done before a value is escaped. -/
theorem Valid.ready_eq (h : Valid w) (hin : w.context.InContent element) : w.ready = w := by
  obtain ⟨hdecided, -⟩ := h.of_inContent hin
  refine h.ready_eq_self hdecided.delim fun hs => ?_
  have hcontent := hdecided.state
  rw [hs] at hcontent
  cases hcontent

/-- In content a value is written without a `<`. -/
theorem lt_notMem_escapeValue (hin : w.context.InContent element)
    (hliteral : ∀ value, '<' ∉ w.serializer.literal value) (value : Value) :
    '<' ∉ w.escapeValue value := by
  -- content is in no quotes
  have hquoting : Directive.quoting w.context = none := by
    have hne : w.context.state ≠ .beforeValue := by
      intro h
      have hs := hin.state
      rw [h] at hs
      cases hs
    simp [Directive.quoting, hin.delim, hne]
  have hsingle (escaper : Escaper) (options : EscapeOptions) (t : Text) :
      Directive.escapeInAttr escaper none options t = escaper.escape options t := by
    cases escaper <;> rfl
  intro hmem
  rw [escapeValue] at hmem
  simp only [Directive.ofContext, Directive.apply, hquoting, hsingle] at hmem
  -- what is put in front of the value, or the value
  rcases List.mem_append.mp hmem with hmem | hmem
  · split at hmem
    · exact absurd (List.mem_singleton.mp hmem) (by decide)
    · cases hmem
  · refine Escaper.lt_notMem_escape (fun he => ?_) hmem
    rw [he]
    exact hliteral value

/-- The content goes on for as long as nothing completes the end tag that is held back. -/
theorem Valid.inContent_peek_iff (h : Valid w) (hin : w.context.InContent element)
    (hend : element.hasEndTag = true) {s : Text} (hs : '<' ∉ s) :
    (w.decided.peek (w.held.text ++ s)).InContent element
      ↔ ¬ element.Closes (w.held.text ++ s) := by
  obtain ⟨hdecided, hnone | ⟨start, hstart, hlt⟩⟩ := h.of_inContent hin
  · rw [hnone, List.nil_append]
    -- without a `<` there is no end tag
    have hnot : ¬ element.Closes s := by
      rintro ⟨name, d, rest, heq, -⟩
      rw [heq] at hs
      exact hs List.mem_cons_self
    exact ⟨fun _ => hnot, fun _ => hdecided.peek hs⟩
  · rw [hstart, List.cons_append]
    exact Context.inContent_peek_iff hdecided hend (by simp [hlt, hs])

/-- As long as the end tag that is held back is not complete, the language reads on. -/
theorem Valid.peek_eq_feedAll (h : Valid w) (hin : w.context.InContent element)
    (hend : element.hasEndTag = true) {s : Text} (hs : '<' ∉ s)
    (hopen : ¬ element.Closes (w.held.text ++ s)) :
    w.decided.peek (w.held.text ++ s) = w.context.feedAll s := by
  obtain ⟨hdecided, hnone | ⟨start, hstart, hlt⟩⟩ := h.of_inContent hin
  · rw [context_eq_decided hnone, hnone, List.nil_append, Context.peek,
      Context.advance_content hdecided.delim hdecided.state hs]
  · have hheld : ¬ element.Closes w.held.text := fun hclose => hopen (hclose.append s)
    have hcontext : w.context = w.decided.feedAll w.held.text := by
      rw [context]
      rw [hstart] at hheld ⊢
      rw [Context.peek, hdecided.advance_eq_feedAll hend hlt hheld (.inl rfl)]
    have hall : w.decided.peek (w.held.text ++ s) = w.decided.feedAll (w.held.text ++ s) := by
      rw [hstart, List.cons_append] at hopen ⊢
      rw [Context.peek, hdecided.advance_eq_feedAll hend (by simp [hlt, hs]) hopen (.inl rfl)]
    rw [hall, hcontext, Context.feedAll_append]

/-- The value of an attribute, or the content of an element. -/
theorem Valid.inAttrValue_or_inContent (h : Valid w) (hs : w.context.state.isContent = true) :
    w.decided.inAttrValue = true ∨ ∃ element, w.context.InContent element := by
  cases hd : w.context.delim with
  | none =>
    obtain ⟨element, he, -⟩ := h.wellFormed_context.of_content hd hs
    exact .inr ⟨element, hd, he, hs⟩
  | some delim => exact .inl (by simp [Context.inAttrValue, ← h.delim_eq, hd])

/-- **In code a value is read as it has been escaped**, after the start of an end tag that is held
back too, unless the value goes on with the end tag. -/
theorem read_writeValue (hw : Reachable w) (hopen : w.closed = false) (hcode : w.context.InCode)
    (value : Value)
    (hclean : ∀ c ∈ (Escaper.ofContext w.context).escape { soft := w.soft, schemes := w.schemes }
      (valueText w.serializer (Escaper.ofContext w.context) value), c ≠ '<' ∧ c ≠ '\x00')
    (hlimit : ∀ e, (w.writeValue value).error ≠ some (.heldTextLimit e))
    (hnot : ∀ element, w.context.InContent element →
      ¬ element.Closes (w.held.text ++ w.escapeValue value)
        ∧ ¬ element.StartsEndTag (w.held.text ++ w.escapeValue value)) :
    (w.writeValue value).writer.context = w.context.feedAll (w.readText value)
      ∧ (w.writeValue value).writer.held.text = [] := by
  have hvalid := hw.valid
  -- with nothing held back, or in the value of an attribute, there is no end tag
  by_cases hheld : w.held.text = [] ∨ w.decided.inAttrValue = true
  · have hreads := reads_writeValue hw hopen hcode hheld value hclean
    exact ⟨hreads.context, hreads.held⟩
  rw [not_or] at hheld
  obtain ⟨element, hin⟩ :=
    (hvalid.inAttrValue_or_inContent hcode.isContent).resolve_left hheld.2
  obtain ⟨hcloses, hstarts⟩ := hnot element hin
  -- what is held back starts with the only `<` there is
  obtain ⟨hdecided, hnone | ⟨start, hstart, hlt⟩⟩ := hvalid.of_inContent hin
  · exact absurd hnone hheld.1
  have hend : element.hasEndTag = true :=
    (hdecided.startsEndTag (hvalid.held.resolve_left hheld.1)).1
  have hwritten := escapeValue_eq_readText hcode hin.delim value
  have hvalue : '<' ∉ w.readText value := by
    intro hmem
    rcases List.mem_append.mp hmem with hmem | hmem
    · exact absurd (Context.eq_of_mem_secondBackslash hmem) (by decide)
    · exact (hclean _ hmem).1 rfl
  have hcall : w.writeValue value = w.advance (w.readText value) := by
    rw [writeValue_eq hopen, hvalid.ready_eq hin, hwritten]
  rw [hwritten] at hcloses hstarts
  rw [hcall] at hlimit ⊢
  refine ⟨?_, ?_⟩
  · rw [context_advance hlimit]
    exact hvalid.peek_eq_feedAll hin hend hvalue hcloses
  · rw [(followed_of_advance hlimit).2]
    rw [hstart, List.cons_append] at hcloses hstarts ⊢
    rw [hdecided.advance_eq_feedAll hend (by simp [hlt, hvalue]) hcloses (.inr hstarts)]

/-- A value in code that there is no memory for leaves a writer where it is. -/
theorem kept_of_refused_inCode (hw : Reachable w) (hopen : w.closed = false)
    (hcode : w.context.InCode) (value : Value)
    (hclean : ∀ c ∈ (Escaper.ofContext w.context).escape { soft := w.soft, schemes := w.schemes }
      (valueText w.serializer (Escaper.ofContext w.context) value), c ≠ '<' ∧ c ≠ '\x00')
    {e : LimitExceeded} (h : (w.writeValue value).error = some (.heldTextLimit e)) :
    (w.writeValue value).writer.decided = w.decided
      ∧ (w.writeValue value).writer.held.text = w.held.text := by
  have hvalid := hw.valid
  have hheld : ¬ (w.held.text = [] ∨ w.decided.inAttrValue = true) := by
    intro hheld
    obtain ⟨sent, hcall, -⟩ := writeValue_inCode hw hopen hcode hheld value hclean
    rw [hcall] at h
    exact error_sendDecided_ne sent e h
  rw [not_or] at hheld
  obtain ⟨element, hin⟩ :=
    (hvalid.inAttrValue_or_inContent hcode.isContent).resolve_left hheld.2
  rw [writeValue_eq hopen, hvalid.ready_eq hin] at h ⊢
  exact kept_of_refused hheld.1 h

/-- A value that completes the end tag ends the element. -/
theorem not_inContent_of_closes (hw : Reachable w) (hopen : w.closed = false)
    (hin : w.context.InContent element) (hend : element.hasEndTag = true) {value : Value}
    (hvalue : '<' ∉ w.escapeValue value)
    (hlimit : ∀ e, (w.writeValue value).error ≠ some (.heldTextLimit e))
    (hcloses : element.Closes (w.held.text ++ w.escapeValue value)) :
    ¬ (w.writeValue value).writer.context.InContent element := by
  have hvalid := hw.valid
  rw [writeValue_eq hopen, hvalid.ready_eq hin] at hlimit ⊢
  rw [context_advance hlimit, hvalid.inContent_peek_iff hin hend hvalue]
  exact not_not_intro hcloses

/-- **When a value ends the element it is written in.** As long as the end tag that trusted text may
have started is not complete, the content goes on, after the value and after further text without a
`<`. It ends there if the held back text, the value and that text make up the end tag. -/
theorem inContent_writeValue_iff (hw : Reachable w) (hopen : w.closed = false)
    (hliteral : ∀ value, '<' ∉ w.serializer.literal value)
    (hin : w.context.InContent element) (hend : element.hasEndTag = true) (value : Value)
    (hlimit : ∀ e, (w.writeValue value).error ≠ some (.heldTextLimit e)) {text : Text}
    (htext : '<' ∉ text)
    (hlimit' : ∀ e, ((w.writeValue value).writer.writeTrusted text).error
      ≠ some (.heldTextLimit e)) :
    let next := (w.writeValue value).writer
    let written := w.held.text ++ w.escapeValue value
    (next.context.InContent element ↔ ¬ element.Closes written)
      ∧ ((next.writeTrusted text).writer.context.InContent element
        ↔ ¬ element.Closes (written ++ text))
      ∧ (w.held.text = [] → (next.writeTrusted text).writer.context.InContent element) := by
  have hvalid := hw.valid
  have hvalue := lt_notMem_escapeValue hin hliteral value
  have hcall : w.writeValue value = w.advance (w.escapeValue value) := by
    rw [writeValue_eq hopen, hvalid.ready_eq hin]
  dsimp only
  rw [hcall] at hlimit hlimit' ⊢
  have hnext : (w.advance (w.escapeValue value)).writer.closed = false :=
    (closed_advance _ _).trans hopen
  obtain ⟨hdecided, hheld⟩ := followed_of_advance hlimit
  -- the value and the text after it are decided as one piece
  have hlater : ((w.advance (w.escapeValue value)).writer.writeTrusted text).writer.context
      = w.decided.peek (w.held.text ++ w.escapeValue value ++ text) := by
    rw [writeTrusted_eq hnext] at hlimit' ⊢
    rw [context_advance hlimit', hdecided, hheld, ← Context.peek_append]
  rw [context_advance hlimit, hlater, List.append_assoc]
  have hall : '<' ∉ w.escapeValue value ++ text := by simp [hvalue, htext]
  refine ⟨hvalid.inContent_peek_iff hin hend hvalue, hvalid.inContent_peek_iff hin hend hall, ?_⟩
  intro hnone
  rw [hnone, List.nil_append]
  exact (hvalid.of_inContent hin).1.peek hall

/-- The serializer that is used by default writes no `<`. -/
theorem lt_notMem_literal (value : Value) : '<' ∉ Serializer.default.literal value :=
  fun hmem => absurd ((Js.isExpression_literal value).inline '<' hmem) (by decide)

/-- A value that goes on with the name in an end tag, which trusted text completes then. -/
theorem script_is_ended_later :
    let w := startingWith "<script>x = '</scr".toList
    let next := (w.writeValue (.str "ipt".toList)).writer
    w.closed = false ∧ w.context.InContent .script
      ∧ Html.Element.script.Closes
        (w.held.text ++ w.escapeValue (.str "ipt".toList) ++ " '".toList)
      ∧ ¬ (next.writeTrusted " '".toList).writer.context.InContent .script := by
  have hin : (startingWith "<script>x = '</scr".toList).context.InContent .script :=
    ⟨by decide +kernel, by decide +kernel, by decide +kernel⟩
  have hclose : Html.Element.script.Closes ((startingWith "<script>x = '</scr".toList).held.text
      ++ (startingWith "<script>x = '</scr".toList).escapeValue (.str "ipt".toList)
      ++ " '".toList) :=
    ⟨"script".toList, ' ', "'".toList, by decide +kernel, by decide, by decide⟩
  have hvalue : ((startingWith "<script>x = '</scr".toList).writeValue
      (.str "ipt".toList)).error = none := by decide +kernel
  have htext : (((startingWith "<script>x = '</scr".toList).writeValue
      (.str "ipt".toList)).writer.writeTrusted " '".toList).error = none := by decide +kernel
  have hends := inContent_writeValue_iff (reachable_startingWith "<script>x = '</scr".toList)
    (by decide +kernel) lt_notMem_literal hin rfl (.str "ipt".toList)
    (fun e he => Option.some_ne_none _ (he.symm.trans hvalue)) (show '<' ∉ " '".toList by decide)
    (fun e he => Option.some_ne_none _ (he.symm.trans htext))
  exact ⟨by decide +kernel, hin, hclose, fun h => hends.2.1.mp h hclose⟩

/-- **A value can end the element it is written in**: a space makes an end tag of what is held
back. -/
theorem textarea_is_ended :
    let w := startingWith "<textarea></textarea".toList
    w.closed = false ∧ w.context.InContent .textarea
      ∧ ¬ (w.writeValue (.str " x".toList)).writer.context.InContent .textarea := by
  refine ⟨by decide +kernel, ⟨by decide +kernel, by decide +kernel, by decide +kernel⟩, ?_⟩
  intro h
  exact absurd h.element (by decide +kernel)

end Writer

end SafeMarkup
