import SafeMarkup.Proofs.Chunks
import SafeMarkup.Proofs.Feed

/-!
# Well-formed contexts

Most combinations of the fields of a context mean nothing: there is no JS without a script or an
attribute that holds it, and no delimiter outside of a value. `WellFormed` lists the combinations
that do occur. Every step leads from one of them to another (`WellFormed.of_next`), so following a
text never leaves them (`WellFormed.advance`).
-/

namespace SafeMarkup

namespace State

/-- In markup, outside of tags and special elements? -/
def isText : State → Bool
  | .text | .tagName | .comment | .bogusComment => true
  | _ => false

/-- In a tag, in or after the name of an attribute? -/
def isAttr : State → Bool
  | .attrName | .afterName | .beforeValue => true
  | _ => false

end State

namespace Context

/-- The combinations of fields that occur. -/
inductive WellFormed : Context → Prop where
  | text (state : State) (hs : state.isText = true) : WellFormed { state }
  | tag (element : Option Html.Element) : WellFormed { state := .tag, element }
  | attr (state : State) (hs : state.isAttr = true) (element : Option Html.Element)
      (kind : Html.AttrKind) : WellFormed { state, element, attr := some kind }
  | value (ctx : Context) (delim : Delim) (hd : ctx.delim = some delim) (kind : Html.AttrKind)
      (ha : ctx.attr = some kind) (hs : ctx.state.entry = (ctx.attrValue delim).state)
      (hr : ctx.Remembers) : WellFormed ctx
  | content (ctx : Context) (hd : ctx.delim = none) (ha : ctx.attr = none)
      (element : Html.Element) (he : ctx.element = some element)
      (hs : ctx.state.entry = (elementContent (some element)).state) (hr : ctx.Remembers) :
      WellFormed ctx

variable {ctx next : Context} {c : Char} {last : Bool} {rest : Text}

/-! ### Reading the combinations -/

/-- The value of an attribute starts where its language is entered. -/
theorem entry_attrValue (ctx : Context) (delim : Delim) :
    (ctx.attrValue delim).state.entry = (ctx.attrValue delim).state := by
  cases h : ctx.attr with
  | none => simp [attrValue, h, State.entry]
  | some kind => cases kind <;> simp [attrValue, h, State.entry]

theorem entry_elementContent (element : Option Html.Element) :
    (elementContent element).state.entry = (elementContent element).state := by
  cases element with
  | none => rfl
  | some element => cases element <;> rfl

/-- The states of values and contents are not those of markup. -/
theorem isContent_of_entry {state : State} (h : state.entry.isContent = true) :
    state.isContent = true := by
  cases state <;> first | rfl | exact h

/-- A value is content. -/
theorem isContent_attrValue (ctx : Context) (delim : Delim) :
    (ctx.attrValue delim).state.isContent = true := by
  cases h : ctx.attr with
  | none => simp [attrValue, h, State.isContent]
  | some kind => cases kind <;> simp [attrValue, h, State.isContent]

theorem isContent_elementContent (element : Html.Element) :
    (elementContent (some element)).state.isContent = true := by
  cases element <;> rfl

theorem not_isContent_of_isText {state : State} (h : state.isText = true) :
    state.isContent = false := by
  cases state <;> first | rfl | cases h

theorem not_isContent_of_isAttr {state : State} (h : state.isAttr = true) :
    state.isContent = false := by
  cases state <;> first | rfl | cases h

theorem not_isText_of_isAttr {state : State} (h : state.isAttr = true) :
    state.isText = false := by
  cases state <;> first | rfl | cases h

/-- What is remembered is about the state. -/
theorem WellFormed.remembers (h : ctx.WellFormed) : ctx.Remembers := by
  cases h with
  | text | tag | attr => exact remembers_of_flags rfl (Nat.zero_le _)
  | value _ _ _ _ _ _ hr => exact hr
  | content _ _ _ _ _ _ hr => exact hr

/-- A value is in the language of its attribute. -/
theorem WellFormed.of_delim {delim : Delim} (h : ctx.WellFormed) (hd : ctx.delim = some delim) :
    (∃ kind, ctx.attr = some kind) ∧ ctx.state.entry = (ctx.attrValue delim).state
      ∧ ctx.state.isContent = true := by
  cases h with
  | text | tag | attr => cases hd
  | value _ delim' hd' kind ha hs hr =>
    cases hd'.symm.trans hd
    exact ⟨⟨kind, ha⟩, hs, isContent_of_entry (by rw [hs]; exact isContent_attrValue ctx delim)⟩
  | content _ hd' => rw [hd'] at hd; cases hd

/-- Only a value has a delimiter. -/
theorem WellFormed.delim_of_not_isContent (h : ctx.WellFormed)
    (hs : ctx.state.isContent = false) : ctx.delim = none := by
  rw [Option.eq_none_iff_forall_ne_some]
  intro delim hd
  rw [(h.of_delim hd).2.2] at hs
  cases hs

/-- Outside of values and contents there is nothing but markup. -/
theorem WellFormed.of_not_isContent (h : ctx.WellFormed) (hs : ctx.state.isContent = false) :
    (ctx.state.isText = true ∧ ctx = { state := ctx.state })
      ∨ (ctx.state = .tag ∧ ctx = { state := .tag, element := ctx.element })
      ∨ (ctx.state.isAttr = true
        ∧ ∃ kind, ctx = { state := ctx.state, element := ctx.element, attr := some kind }) := by
  cases h with
  | text state ht => exact .inl ⟨ht, rfl⟩
  | tag => exact .inr (.inl ⟨rfl, rfl⟩)
  | attr _ ha _ kind => exact .inr (.inr ⟨ha, kind, rfl⟩)
  -- the state of a value or of content is one of content
  | value _ delim _ _ _ hv =>
    rw [isContent_of_entry (by rw [hv]; exact isContent_attrValue ctx delim)] at hs
    cases hs
  | content _ _ _ element _ hv =>
    rw [isContent_of_entry (by rw [hv]; exact isContent_elementContent element)] at hs
    cases hs

/-- In text nothing else is known. -/
theorem WellFormed.of_text (h : ctx.WellFormed) (hs : ctx.state.isText = true) :
    ctx = { state := ctx.state } := by
  rcases h.of_not_isContent (not_isContent_of_isText hs) with ⟨-, heq⟩ | ⟨ht, -⟩ | ⟨ha, -⟩
  · exact heq
  · rw [ht] at hs
    cases hs
  · rw [not_isText_of_isAttr ha] at hs
    cases hs

/-- In a tag no more than the element is known. -/
theorem WellFormed.of_tag (h : ctx.WellFormed) (hs : ctx.state = .tag) :
    ctx = { state := .tag, element := ctx.element } := by
  rcases h.of_not_isContent (by rw [hs]; rfl) with ⟨ht, -⟩ | ⟨-, heq⟩ | ⟨ha, -⟩
  · rw [hs] at ht
    cases ht
  · exact heq
  · rw [hs] at ha
    cases ha

/-- At an attribute its kind is known, but no more. -/
theorem WellFormed.of_attr (h : ctx.WellFormed) (hs : ctx.state.isAttr = true) :
    ∃ kind, ctx = { state := ctx.state, element := ctx.element, attr := some kind } := by
  rcases h.of_not_isContent (not_isContent_of_isAttr hs) with ⟨ht, -⟩ | ⟨ht, -⟩ | ⟨-, heq⟩
  · rw [not_isText_of_isAttr hs] at ht
    cases ht
  · rw [ht] at hs
    cases hs
  · exact heq

/-- Outside of values a language is that of an element. -/
theorem WellFormed.of_content (h : ctx.WellFormed) (hd : ctx.delim = none)
    (hs : ctx.state.isContent = true) :
    ∃ element, ctx.element = some element
      ∧ ctx.state.entry = (elementContent (some element)).state := by
  cases h with
  | text _ ht => rw [not_isContent_of_isText ht] at hs; cases hs
  | tag => cases hs
  | attr _ ha => rw [not_isContent_of_isAttr ha] at hs; cases hs
  | value _ _ hd' => rw [hd'] at hd; cases hd
  | content _ _ _ element he hentry => exact ⟨element, he, hentry⟩

/-! ### What keeps contexts well-formed -/

/-- The content of an element starts in a well-formed context. -/
theorem wellFormed_elementContent (element : Option Html.Element) :
    (elementContent element).WellFormed := by
  cases element with
  | none => exact .text .text rfl
  | some element =>
    exact .content _ rfl rfl element rfl (entry_elementContent _)
      (remembers_of_flags rfl (Nat.zero_le _))

theorem wellFormed_attrValue {kind : Html.AttrKind} (ha : ctx.attr = some kind) (delim : Delim) :
    (ctx.attrValue delim).WellFormed :=
  .value _ delim rfl kind ha (entry_attrValue ctx delim) (remembers_of_flags rfl (Nat.zero_le _))

/-- A character of content keeps the context well-formed. -/
theorem WellFormed.feed (h : ctx.WellFormed) (d : Char) : (ctx.feed d).WellFormed := by
  have hplace := samePlace_feed ctx d
  cases h with
  | text state hs =>
    have heq : Context.feed { state } d = { state } := by cases state <;> first | rfl | cases hs
    rw [heq]
    exact .text state hs
  | tag element => exact .tag element
  | attr state hs element kind =>
    have heq : Context.feed { state, element, attr := some kind } d
        = { state, element, attr := some kind } := by
      cases state <;> first | rfl | cases hs
    rw [heq]
    exact .attr state hs element kind
  | value _ delim hd kind ha hs hr =>
    -- a character never leaves the language of the attribute
    refine .value _ delim (hplace.delim.trans hd) kind (hplace.attr.trans ha) ?_ (hr.feed d)
    rw [hplace.entry, hs]
    simp only [attrValue, hplace.attr]
  | content _ hd ha element he hs hr =>
    exact .content _ (hplace.delim.trans hd) (hplace.attr.trans ha) element
      (hplace.element.trans he) (hplace.entry.trans hs) (hr.feed d)

/-- **A decision leads from a well-formed context to a well-formed context.** -/
theorem WellFormed.of_next (h : ctx.WellFormed) (hn : ctx.Next c next) : next.WellFormed := by
  have after {state : State} (hs : state.isAfterAttrName = true) : state.isAttr = true := by
    cases state <;> first | rfl | cases hs
  have tag (element : Option Html.Element) : WellFormed { state := .tag, element } := .tag element
  cases hn with
  | inValue _ _ _ d => exact h.feed d
  | valueEnd _ _ _ _ hnext =>
    rcases hnext with rfl | rfl
    · exact tag _
    · exact wellFormed_elementContent _
  | inText | inTagName | inTag | inAttrName | beforeValue | inComment => exact h
  | markup hd hs _ state hstate =>
    rw [h.of_text (by rw [hs]; rfl)]
    exact .text state (by rcases hstate with rfl | rfl | rfl <;> rfl)
  | tagStart => exact tag _
  | tagNameEnd _ _ _ hnext =>
    rcases hnext with rfl | rfl
    · exact tag _
    · exact .text .text rfl
  | attr _ hs kind state hstate =>
    rw [h.of_tag hs]
    exact .attr state (after hstate) _ kind
  | tagClose => exact wellFormed_elementContent _
  | afterName _ hs state hstate =>
    -- a space or a `=` after the name changes nothing but the state
    obtain ⟨kind, heq⟩ := h.of_attr (after hs)
    rw [heq]
    exact .attr state (by rcases hstate with rfl | rfl <;> rfl) _ kind
  | noValue => exact tag _
  | nextAttr _ _ kind state hstate => exact .attr state (after hstate) _ kind
  | valueStart _ hs delim =>
    obtain ⟨kind, heq⟩ := h.of_attr (by rw [hs]; rfl)
    exact wellFormed_attrValue (by rw [heq]) delim
  | unquotedStart _ hs d =>
    obtain ⟨kind, heq⟩ := h.of_attr (by rw [hs]; rfl)
    exact (wellFormed_attrValue (by rw [heq]) .spaceOrTagEnd).feed d
  | commentEnd _ hs =>
    rw [h.of_text (by rcases hs with e | e <;> rw [e] <;> rfl)]
    exact .text .text rfl
  | inContent _ _ d => exact h.feed d
  | contentEnd => exact tag none

theorem WellFormed.of_clearer (h : ctx.WellFormed) (hn : ctx.Clearer next) : next.WellFormed := by
  cases hn with
  | same => exact h
  | tag => exact .tag _
  | value _ hs =>
    -- a reference may start the value: its delimiter is known before its first character is
    obtain ⟨kind, heq⟩ := h.of_attr (by rw [hs]; rfl)
    exact wellFormed_attrValue (by rw [heq]) .spaceOrTagEnd

/-- **Following a text never leaves the well-formed contexts.** -/
theorem WellFormed.advance (h : ctx.WellFormed) (last : Bool) (t : Text) :
    (ctx.advance last t).context.WellFormed := by
  induction ctx, t using advance_induction last with
  | nil => exact h
  | consumed ctx c rest next w u hstep ih =>
    rw [advance_consumed hstep]
    exact ih (h.of_next (next_of_step hstep))
  | blocked ctx c rest next hstep =>
    rw [advance_blocked hstep]
    exact h.of_clearer (blocked_of_step hstep).2.1

end Context

end SafeMarkup
