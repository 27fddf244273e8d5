import SafeMarkup.Proofs.EndTags

/-!
# The shapes of held back text

What a writer holds back is always the start of one thing: of markup, of a name in a tag, of a
reference, of the end of a comment or of an end tag (`HoldsBack`). These are exactly the texts that
are left as they are when they are followed once more (`holdsBack_iff`). Names are only split where
a text is the last one, so the decided context of an open writer never lies inside a name
(`Reachable.isPartialName_eq`).
-/

namespace SafeMarkup

/-- In the name of a tag or of an attribute, of which a part has been decided on? -/
def State.isPartialName : State → Bool
  | .tagName | .attrName => true
  | _ => false

namespace Context

variable {ctx next : Context} {c : Char} {rest t w : Text} {u : Nat}

/-! ### Shapes -/

/-- The texts that are held back at `ctx`, by the place of the cursor. -/
inductive HoldsBack (ctx : Context) : Text → Prop where
  /-- The start of markup of which not even the kind is known, or of a comment that can still be
  over at once. -/
  | opening (hd : ctx.delim = none) (hs : ctx.state = .text) (t : Text)
      (ht : t ∈ [['<'], ['<', '/'], ['<', '!'], ['<', '!', '-'], ['<', '!', '-', '-'],
        ['<', '!', '-', '-', '-']]) : HoldsBack ctx t
  /-- A tag up to somewhere in its name. -/
  | tagName (hd : ctx.delim = none) (hs : ctx.state = .text) (opening : Text)
      (hopening : opening = ['<'] ∨ opening = ['<', '/']) (c : Char) (hc : c.isAlpha = true)
      (rest : Text) (hrest : ∀ d ∈ rest, isHtmlSpace d = false ∧ d ≠ '/' ∧ d ≠ '>') :
      HoldsBack ctx (opening ++ c :: rest)
  /-- The name of an attribute, which can start with any character that does not end a tag or its
  name. -/
  | attrName (hd : ctx.delim = none) (hs : ctx.state = .tag) (c : Char)
      (hc : isHtmlSpace c = false ∧ c ≠ '/' ∧ c ≠ '>') (rest : Text)
      (hrest : ∀ d ∈ rest, isHtmlSpace d = false ∧ d ≠ '/' ∧ d ≠ '>' ∧ d ≠ '=') :
      HoldsBack ctx (c :: rest)
  /-- A reference that can go on. -/
  | reference (hd : ctx.delim.isSome = true) (rest : Text)
      (hrest : Html.CharRef.scan false rest = .incomplete) : HoldsBack ctx ('&' :: rest)
  | commentEnd (hd : ctx.delim = none) (hs : ctx.state = .comment) (t : Text)
      (ht : t ∈ [['-'], ['-', '-'], ['-', '-', '!']]) : HoldsBack ctx t
  | endTag (element : Html.Element) (hin : ctx.InContent element)
      (hend : element.hasEndTag = true) (t : Text) (ht : element.StartsEndTag t) : HoldsBack ctx t

theorem endsTagName_eq_false_iff :
    Html.endsTagName c = false ↔ isHtmlSpace c = false ∧ c ≠ '/' ∧ c ≠ '>' := by
  simp [Html.endsTagName, and_assoc]

theorem endsAttrName_eq_false_iff :
    Html.endsAttrName c = false ↔ isHtmlSpace c = false ∧ c ≠ '/' ∧ c ≠ '>' ∧ c ≠ '=' := by
  simp [Html.endsAttrName, Html.endsTagName, and_assoc]

/-- What is undecided has one of the shapes. -/
theorem Undecided.holdsBack (h : ctx.Undecided t) : ctx.HoldsBack t := by
  -- names are told by one class there, and character by character here
  have name {c : Char} {rest : Text} (h : ∀ d ∈ c :: rest, Html.endsTagName d = false) :
      ∀ d ∈ rest, isHtmlSpace d = false ∧ d ≠ '/' ∧ d ≠ '>' :=
    fun d hd => endsTagName_eq_false_iff.mp (h d (List.mem_cons_of_mem c hd))
  cases h with
  | markup rest hd hs hrest =>
    cases hrest with
    | opening _ ht => exact .opening hd hs _ (by simpa using ht)
    | tagName c rest hc hname => exact .tagName hd hs _ (.inl rfl) c hc rest (name hname)
    | endTagName c rest hc hname => exact .tagName hd hs _ (.inr rfl) c hc rest (name hname)
  | name c rest hd hs hc hrest =>
    exact .attrName hd hs c (endsTagName_eq_false_iff.mp hc) rest
      fun d hd => endsAttrName_eq_false_iff.mp (hrest d hd)
  | reference rest hd hrest => exact .reference hd rest hrest
  | commentEnd _ hd hs ht => exact .commentEnd hd hs _ ht
  | contentEnd element rest hd hs he hend hrest =>
    exact .endTag element ⟨hd, he, hs⟩ hend _
      (Html.Element.startsEndTag_iff.mpr ⟨rest, rfl, hrest⟩)

/-- Every text of these shapes is undecided. -/
theorem HoldsBack.undecided (h : ctx.HoldsBack t) : ctx.Undecided t := by
  -- the first letter of a name does not end it either
  have name {c : Char} {rest : Text} (hc : c.isAlpha = true)
      (h : ∀ d ∈ rest, isHtmlSpace d = false ∧ d ≠ '/' ∧ d ≠ '>') :
      ∀ d ∈ c :: rest, Html.endsTagName d = false := by
    intro d hd
    rcases List.mem_cons.mp hd with rfl | hd
    · exact Html.endsTagName_of_isAlphanum (by simp [Char.isAlphanum, hc])
    · exact endsTagName_eq_false_iff.mpr (h d hd)
  cases h with
  | opening hd hs _ ht =>
    simp only [List.mem_cons, List.not_mem_nil, or_false] at ht
    rcases ht with rfl | rfl | rfl | rfl | rfl | rfl <;>
      exact .markup _ hd hs (.opening _ (by simp))
  | tagName hd hs _ hopening c hc rest hrest =>
    rcases hopening with rfl | rfl
    · exact .markup _ hd hs (.tagName c rest hc (name hc hrest))
    · exact .markup _ hd hs (.endTagName c rest hc (name hc hrest))
  | attrName hd hs c hc rest hrest =>
    exact .name c rest hd hs (endsTagName_eq_false_iff.mpr hc)
      fun d hd => endsAttrName_eq_false_iff.mpr (hrest d hd)
  | reference hd rest hrest => exact .reference rest hd hrest
  | commentEnd hd hs _ ht => exact .commentEnd _ hd hs ht
  | endTag element hin hend _ ht =>
    obtain ⟨rest, rfl, hrest⟩ := Html.Element.startsEndTag_iff.mp ht
    exact .contentEnd element rest hin.delim hin.state hin.element hend hrest

/-- **The shapes are those of the texts that are held back as a whole.** -/
theorem holdsBack_iff : ctx.HoldsBack t ↔ t ≠ [] ∧ ctx.advance false t = ⟨ctx, [], t⟩ := by
  constructor
  · intro h
    exact ⟨h.undecided.ne_nil, h.undecided.advance⟩
  · rintro ⟨hne, hadvance⟩
    have hheld := held_of_advance ctx false t
    rw [hadvance] at hheld
    rcases hheld with hnone | ⟨-, hu⟩
    · exact absurd hnone hne
    · exact hu.holdsBack

/-! ### Names are decided on as a whole -/

theorem isPartialName_of_isContent {state : State} (h : state.isContent = true) :
    state.isPartialName = false := by
  cases state <;> first | rfl | cases h

/-- The content of an element is no place inside a name. -/
theorem isPartialName_elementContent (element : Option Html.Element) :
    (elementContent element).state.isPartialName = false := by
  cases element with
  | none => rfl
  | some element => exact isPartialName_of_isContent (isContent_elementContent element)

/-- A character of an inner language does not lead into a name, nor out of one. -/
theorem isPartialName_feed (ctx : Context) (c : Char) :
    (ctx.feed c).state.isPartialName = ctx.state.isPartialName := by
  have hentry := (samePlace_feed ctx c).entry
  cases hs : ctx.state <;> cases hs' : (ctx.feed c).state <;>
    simp_all [State.entry, State.isPartialName]

/-- After the name of a tag the cursor is in the tag. -/
theorem isPartialName_of_stepTagName {opening : Text} {element : Text → Option Html.Element}
    (h : ctx.stepTagName false opening element rest = .consumed next w u) :
    next.state.isPartialName = false := by
  simp only [stepTagName] at h
  split at h <;> cases h
  rfl

/-- No markup leads into a name, since names are only taken as a whole. -/
theorem isPartialName_of_stepMarkup (hs : ctx.state = .text)
    (h : ctx.stepMarkup false rest = .consumed next w u) : next.state.isPartialName = false := by
  have hctx : ctx.state.isPartialName = false := by rw [hs]; rfl
  rcases rest with _ | ⟨c, more⟩
  · cases h
  simp only [stepMarkup] at h
  -- the branches are those of the step: `<!`, `<?`, `</`, the name of a tag, and any other
  -- character
  split at h
  · simp only [stepDeclaration, Step.copy] at h
    split at h <;> try split at h
    all_goals cases h
    all_goals first | exact hctx | rfl
  split at h
  · cases h
    rfl
  split at h
  · rcases more with _ | ⟨d, more⟩
    · cases h
    simp only [stepEndTag, Step.copy] at h
    split at h
    · exact isPartialName_of_stepTagName h
    split at h <;> cases h
    · exact hctx
    · rfl
  split at h
  · exact isPartialName_of_stepTagName h
  · cases h
    exact hctx

/-- Neither does a tag. -/
theorem isPartialName_of_stepTag (hs : ctx.state.isPartialName = false)
    (h : ctx.stepTag false c rest = .consumed next w u) : next.state.isPartialName = false := by
  simp only [stepTag] at h
  split at h
  · cases h
    exact isPartialName_elementContent _
  split at h
  · cases h
    exact hs
  split at h <;> cases h
  rfl

theorem isPartialName_of_stepAfterName (hs : ctx.state.isPartialName = false)
    (h : ctx.stepAfterName false c rest = .consumed next w u) :
    next.state.isPartialName = false := by
  simp only [stepAfterName] at h
  split at h
  · cases h
    rfl
  split at h
  · cases h
    exact isPartialName_elementContent _
  split at h
  · cases h
    exact hs
  · have htag : ctx.inTag.state.isPartialName = false := rfl
    exact isPartialName_of_stepTag htag h

/-- **As long as more may follow, no step ends inside a name.** -/
theorem isPartialName_of_step (hs : ctx.state.isPartialName = false)
    (h : ctx.step false c rest = .consumed next w u) : next.state.isPartialName = false := by
  cases next_of_step h with
  | inValue _ _ _ d | inContent _ _ d => rwa [isPartialName_feed]
  | unquotedStart _ _ d =>
    rw [isPartialName_feed]
    exact isPartialName_of_isContent (isContent_attrValue ctx _)
  | valueStart => exact isPartialName_of_isContent (isContent_attrValue ctx _)
  | valueEnd _ _ _ _ hnext =>
    rcases hnext with rfl | rfl
    · rfl
    · exact isPartialName_elementContent _
  | tagClose => exact isPartialName_elementContent _
  | inText | inTag | beforeValue | inComment => exact hs
  | tagStart | noValue | commentEnd | contentEnd => rfl
  | inTagName _ hs' | tagNameEnd _ hs' | inAttrName _ hs' => rw [hs'] at hs; cases hs
  | afterName _ _ state hstate => rcases hstate with rfl | rfl <;> rfl
  -- where the start of a name is decided on, so is its end
  | markup hd hs' hc =>
    subst hc
    have hstep : ctx.step false '<' rest = ctx.stepMarkup false rest := by
      simp only [step, hd, hs', stepText, ↓reduceIte]
    rw [hstep] at h
    exact isPartialName_of_stepMarkup hs' h
  | attr hd hs' =>
    have hstep : ctx.step false c rest = ctx.stepTag false c rest := by simp only [step, hd, hs']
    rw [hstep] at h
    exact isPartialName_of_stepTag hs h
  | nextAttr hd hs' =>
    cases hafter : ctx.state with
    | afterName =>
      have hstep : ctx.step false c rest = ctx.stepAfterName false c rest := by
        simp only [step, hd, hafter]
      rw [hstep] at h
      exact isPartialName_of_stepAfterName hs h
    | attrName => rw [hafter] at hs; cases hs
    | _ => rw [hafter] at hs'; cases hs'

/-- A text that may go on never leads into a name. -/
theorem isPartialName_advance (hs : ctx.state.isPartialName = false) (t : Text) :
    (ctx.advance false t).context.state.isPartialName = false := by
  induction ctx, t using advance_induction false with
  | nil => exact hs
  | consumed ctx c rest next w u hstep ih =>
    rw [advance_consumed hstep]
    exact ih (isPartialName_of_step hs hstep)
  | blocked ctx c rest next hstep =>
    rw [advance_blocked hstep]
    cases (blocked_of_step hstep).2.1 with
    | same => exact hs
    | tag => rfl
    | value => exact isPartialName_of_isContent (isContent_attrValue ctx _)

end Context

namespace Writer

variable {w : Writer} {text : Text}

/-- No call with a text leads into a name. -/
theorem isPartialName_of_advances {outcome : Outcome} (h : w.decided.state.isPartialName = false)
    (ha : Advances w text outcome) : outcome.writer.decided.state.isPartialName = false := by
  cases ha with
  | sent p hp =>
    subst hp
    exact Context.isPartialName_advance h _
  | lost p hp =>
    subst hp
    exact Context.isPartialName_advance h _
  | refused => exact h

/-- Before a value nothing leads into a name either: a reference that is completed lies in a value.
-/
theorem isPartialName_of_prepares {w' : Writer} (hv : Valid w)
    (h : w.decided.state.isPartialName = false) (hp : Prepares w w') :
    w'.decided.state.isPartialName = false := by
  cases hp with
  | asIs => exact h
  | quoted => exact Context.isPartialName_of_isContent (Context.isContent_attrValue w.decided _)
  | reference hd hheld =>
    -- the text is the last one here, but it lies in a value
    obtain ⟨delim, hd'⟩ := Option.isSome_iff_exists.mp hd
    obtain ⟨rest, hrest, hopen⟩ := hheld.exists_reference hd
    change (w.decided.terminateCharRef w.held.text).1.state.isPartialName = false
    rw [Context.terminateCharRef_context, hrest, Context.peek,
      Context.advance_openReference_last hd hopen]
    refine Context.isPartialName_of_isContent ?_
    exact (Context.samePlace_feedAll w.decided _).isContent.trans (hv.wellFormed.of_delim hd').2.2

/-- **The decided context of an open writer does not lie inside a name.** -/
theorem Reachable.isPartialName_eq (h : Reachable w) (hopen : w.closed = false) :
    w.decided.state.isPartialName = false := by
  -- on the calls; a closed writer has decided on everything, so only open ones matter
  induction h with
  | new => rfl
  | call w hw call ih =>
    cases call with
    | writeTrusted text =>
      simp only [perform, writeTrusted] at hopen ⊢
      split at hopen
      · next hclosed => exact absurd hopen (by simp [hclosed])
      · next hclosed =>
        rw [if_neg hclosed]
        exact isPartialName_of_advances (ih (by simpa using hclosed)) (advances w text)
    | writeValue value =>
      simp only [perform, writeValue] at hopen ⊢
      split at hopen
      · next hclosed => exact absurd hopen (by simp [hclosed])
      · next hclosed =>
        rw [if_neg hclosed]
        exact isPartialName_of_advances (isPartialName_of_prepares hw.valid
          (ih (by simpa using hclosed)) (prepares hw.valid)) (advances _ _)
    | setSoft soft => exact ih hopen
    | flush =>
      simp only [perform, flush] at hopen ⊢
      split at hopen
      · next hclosed => exact absurd hopen (by simp [hclosed])
      · next hclosed =>
        rw [if_neg hclosed]
        exact ih (by simpa using hclosed)
    | close => rw [perform, closed_close] at hopen; cases hopen

/-- **What an open writer holds back**, after any calls, whether they succeeded or not: nothing, or
a text of one of the shapes, which are the shapes of all texts that are held back as a whole. So
following the text once more changes nothing. Where a value could start nothing is held back. -/
theorem held_back_exactly (hw : Reachable w) (hopen : w.closed = false) :
    w.decided.state ≠ .tagName ∧ w.decided.state ≠ .attrName
      ∧ (w.held.text = [] ∨ w.decided.HoldsBack w.held.text)
      ∧ (∀ t, w.decided.HoldsBack t ↔ t ≠ [] ∧ w.decided.advance false t = ⟨w.decided, [], t⟩)
      ∧ w.decided.advance false w.held.text = ⟨w.decided, [], w.held.text⟩
      ∧ (w.context.state = .beforeValue → w.held.text = []) := by
  have hname := hw.isPartialName_eq hopen
  have hshape : w.held.text = [] ∨ w.decided.HoldsBack w.held.text :=
    hw.valid.held.imp_right Context.Undecided.holdsBack
  -- the shapes of what is held back come from the invariant, all else from the shapes
  refine ⟨fun hs => ?_, fun hs => ?_, hshape, fun _ => Context.holdsBack_iff, ?_,
    hw.valid.held_eq_nil⟩
  · rw [hs] at hname
    cases hname
  · rw [hs] at hname
    cases hname
  · rcases hshape with hnone | hshape
    · rw [hnone, Context.advance_nil]
    · exact (Context.holdsBack_iff.mp hshape).2

/-- What is held back of a tag stays as it is where there is no memory for more of it. -/
theorem refused_tag_is_held_back :
    let first := (new { preallocated := 2, memoryLimit := 2 }
      { failure? := fun _ _ => none }).writeTrusted "<b".toList
    let second := first.writer.writeTrusted "utton>".toList
    let w := second.writer
    w.closed = false ∧ second.error = some (.heldTextLimit ⟨8, 2⟩)
      ∧ w.held.text = "<b".toList ∧ w.decided.HoldsBack w.held.text
      ∧ w.decided.advance false w.held.text = ⟨w.decided, [], w.held.text⟩ := by
  intro first second w
  have hreach : Reachable w := .call _ (.call _ (.new _ _ _) (.writeTrusted _)) (.writeTrusted _)
  have hopen : w.closed = false := by decide +kernel
  have hheld : w.held.text = "<b".toList := by decide +kernel
  obtain ⟨-, -, hshape, -, hagain, -⟩ := held_back_exactly hreach hopen
  have hne : w.held.text ≠ [] := by
    rw [hheld]
    decide
  exact ⟨hopen, by decide +kernel, hheld, hshape.resolve_left hne, hagain⟩

end Writer

end SafeMarkup
