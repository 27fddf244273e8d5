import SafeMarkup.Proofs.Step

/-!
# Undecided text

`Undecided ctx t` says that `t` is a start of something that cannot be told apart yet at `ctx`: of
markup, of a name, of a reference, of the end of a comment or of an end tag. A step is blocked
exactly on such texts (`undecided_of_step`, `Undecided.step`).
-/

namespace SafeMarkup

/-- Does the text after a `<` leave open what markup it starts? -/
inductive OpenMarkup : Text → Prop where
  | opening (t : Text)
      (ht : t ∈ [[], ['/'], ['!'], ['!', '-'], ['!', '-', '-'], ['!', '-', '-', '-']]) :
      OpenMarkup t
  | tagName (c : Char) (name : Text) (hc : c.isAlpha = true)
      (hname : ∀ d ∈ c :: name, Html.endsTagName d = false) : OpenMarkup (c :: name)
  | endTagName (c : Char) (name : Text) (hc : c.isAlpha = true)
      (hname : ∀ d ∈ c :: name, Html.endsTagName d = false) : OpenMarkup ('/' :: c :: name)

namespace Context

/-- Does `t` leave open what it is the start of? -/
inductive Undecided (ctx : Context) : Text → Prop where
  | markup (rest : Text) (hd : ctx.delim = none) (hs : ctx.state = .text)
      (hrest : OpenMarkup rest) : Undecided ctx ('<' :: rest)
  | name (c : Char) (rest : Text) (hd : ctx.delim = none) (hs : ctx.state = .tag)
      (hc : Html.endsTagName c = false) (hrest : ∀ d ∈ rest, Html.endsAttrName d = false) :
      Undecided ctx (c :: rest)
  | reference (rest : Text) (hd : ctx.delim.isSome = true)
      (hrest : Html.CharRef.scan false rest = .incomplete) : Undecided ctx ('&' :: rest)
  | commentEnd (t : Text) (hd : ctx.delim = none) (hs : ctx.state = .comment)
      (ht : t ∈ [['-'], ['-', '-'], ['-', '-', '!']]) : Undecided ctx t
  | contentEnd (element : Html.Element) (rest : Text) (hd : ctx.delim = none)
      (hs : ctx.state.isContent = true) (he : ctx.element = some element)
      (hend : element.hasEndTag = true)
      (hrest : rest = [] ∨ ∃ more, rest = '/' :: more ∧ element.couldEnd more = true
        ∧ more.length ≤ element.tagName.length) : Undecided ctx ('<' :: rest)

/-- What a blocked step can find out nevertheless: that an attribute has no value, or that its value
is not quoted. -/
inductive Clearer (ctx : Context) : Context → Prop where
  | same : Clearer ctx ctx
  | tag (hd : ctx.delim = none) (hs : ctx.state = .afterName) : Clearer ctx ctx.inTag
  | value (hd : ctx.delim = none) (hs : ctx.state = .beforeValue) :
      Clearer ctx (ctx.attrValue .spaceOrTagEnd)

variable {ctx next : Context} {last : Bool} {c : Char} {rest : Text}

/-! ### What a step is blocked on -/

/-- A tag is undecided as long as its name could go on. -/
theorem blocked_of_stepTagName {opening : Text} {element : Text → Option Html.Element}
    (h : ctx.stepTagName last opening element rest = .blocked next) :
    last = false ∧ next = ctx ∧ ∀ d ∈ rest, Html.endsTagName d = false := by
  simp only [stepTagName] at h
  split at h
  · cases h
  · next hdrop =>
    split at h <;> cases h
    refine ⟨by simp_all, rfl, ?_⟩
    simpa [List.dropWhile_eq_nil_iff] using hdrop

/-- After `<!` only the start of a comment is undecided. -/
theorem blocked_of_stepDeclaration (h : ctx.stepDeclaration last rest = .blocked next) :
    last = false ∧ next = ctx ∧ OpenMarkup ('!' :: rest) := by
  simp only [stepDeclaration, Step.copy] at h
  split at h
  · cases h
  · cases h
  · split at h <;> cases h
    exact ⟨by simp_all, rfl, .opening _ (by simp)⟩
  · split at h <;> cases h
    exact ⟨by simp_all, rfl, .opening _ (by simp)⟩
  · cases h
  · split at h <;> cases h
    exact ⟨by simp_all, rfl, .opening _ (by simp)⟩
  · split at h <;> cases h
    exact ⟨by simp_all, rfl, .opening _ (by simp)⟩
  · cases h

/-- After `<` it is the kind of the markup, or a name. -/
theorem blocked_of_stepMarkup (h : ctx.stepMarkup last rest = .blocked next) :
    last = false ∧ next = ctx ∧ OpenMarkup rest := by
  -- nothing after the `<`
  rcases rest with _ | ⟨c, more⟩
  · simp only [stepMarkup, Step.copy] at h
    split at h <;> cases h
    exact ⟨by simp_all, rfl, .opening _ (by simp)⟩
  -- declarations, `<?`, end tags and start tags, in the order of the step
  simp only [stepMarkup] at h
  split at h
  · next hc =>
    subst hc
    exact blocked_of_stepDeclaration h
  split at h
  · cases h
  split at h
  · next hc =>
    subst hc
    rcases more with _ | ⟨d, more⟩
    · simp only [stepEndTag, Step.copy] at h
      split at h <;> cases h
      exact ⟨by simp_all, rfl, .opening _ (by simp)⟩
    simp only [stepEndTag] at h
    split at h
    · next hd =>
      obtain ⟨hlast, hnext, hname⟩ := blocked_of_stepTagName h
      exact ⟨hlast, hnext, .endTagName d more hd hname⟩
    · split at h <;> cases h
  split at h
  · next hc =>
    obtain ⟨hlast, hnext, hname⟩ := blocked_of_stepTagName h
    exact ⟨hlast, hnext, .tagName c more hc hname⟩
  · cases h

/-- In a tag it is the name of an attribute. -/
theorem blocked_of_stepTag (hd : ctx.delim = none) (hs : ctx.state = .tag)
    (h : ctx.stepTag last c rest = .blocked next) :
    last = false ∧ next = ctx ∧ ctx.Undecided (c :: rest) := by
  simp only [stepTag] at h
  split at h
  · cases h
  split at h
  · cases h
  next hc =>
    split at h
    · cases h
    · next hdrop =>
      split at h <;> cases h
      refine ⟨by simp_all, rfl, .name c rest hd hs (by simpa using hc) ?_⟩
      simpa [List.dropWhile_eq_nil_iff] using hdrop

/-- In a value it is a reference. -/
theorem blocked_of_stepValueChar (hd : ctx.delim.isSome = true)
    (h : ctx.stepValueChar last c rest = .blocked next) :
    last = false ∧ next = ctx ∧ ctx.Undecided (c :: rest) := by
  simp only [stepValueChar, stepChar, Step.copy] at h
  split at h
  · next hc =>
    subst hc
    split at h
    · cases h
    · next hscan =>
      cases h
      cases last with
      | true => exact absurd hscan (Html.CharRef.scan_last rest)
      | false => exact ⟨rfl, rfl, .reference rest hd hscan⟩
    · cases h
  · cases h

/-- How a value ends is always decided at once. -/
theorem blocked_of_stepValue (hd : ctx.delim.isSome = true) {delim : Delim}
    (h : ctx.stepValue delim last c rest = .blocked next) :
    last = false ∧ next = ctx ∧ ctx.Undecided (c :: rest) := by
  -- every branch of a delimiter either decides or reads a character of the value
  cases delim with
  | doubleQuote | singleQuote =>
    simp only [stepValue] at h
    split at h
    · cases h
    · exact blocked_of_stepValueChar hd h
  | spaceOrTagEnd =>
    simp only [stepValue] at h
    split at h
    · cases h
    split at h
    · cases h
    · exact blocked_of_stepValueChar hd h
  | autoQuote =>
    simp only [stepValue] at h
    split at h
    · cases h
    split at h
    · cases h
    split at h
    · cases h
    · exact blocked_of_stepValueChar hd h

/-- After a name the next one may be undecided, and the cursor is in the tag then. -/
theorem blocked_of_stepAfterName (h : ctx.stepAfterName last c rest = .blocked next) :
    last = false ∧ next = ctx.inTag ∧ ctx.inTag.Undecided (c :: rest)
      ∧ Html.endsAttrName c = false := by
  simp only [stepAfterName] at h
  split at h
  · cases h
  next heq =>
    split at h
    · cases h
    split at h
    · cases h
    obtain ⟨hlast, hnext, hu⟩ := blocked_of_stepTag rfl rfl h
    refine ⟨hlast, hnext, hu, ?_⟩
    -- of all that can be undecided only a name lies in a tag
    cases hu with
    | name _ _ hd hs hc hrest => simp [Html.endsAttrName, hc, heq]
    | markup _ hd hs => cases hs
    | reference _ hd => cases hd
    | commentEnd _ hd hs => cases hs
    | contentEnd _ _ hd hs => cases hs

/-- In a comment it is the end of it. -/
theorem blocked_of_stepComment (hd : ctx.delim = none) (hs : ctx.state = .comment)
    (h : ctx.stepComment last c rest = .blocked next) :
    last = false ∧ next = ctx ∧ ctx.Undecided (c :: rest) := by
  simp only [stepComment, Step.copy] at h
  split at h
  · cases h
  · cases h
  all_goals
    first
    | cases h
    | next ht =>
      split at h <;> cases h
      exact ⟨by simp_all, rfl, .commentEnd _ hd hs (by simp [ht])⟩

/-- In the content of an element it is the end tag. -/
theorem blocked_of_stepContent (hd : ctx.delim = none) (hs : ctx.state.isContent = true)
    (h : ctx.stepContent last c rest = .blocked next) :
    last = false ∧ next = ctx ∧ ctx.Undecided (c :: rest) := by
  -- an end tag is compared as far as it goes, so it is open until it is as long as the name
  simp only [stepContent, stepContentMarkup, stepChar] at h
  split at h
  · cases h
  next element he =>
    split at h
    · next hc =>
      obtain ⟨rfl, hend⟩ := hc
      split at h
      · split at h <;> cases h
        exact ⟨by simp_all, rfl, .contentEnd element [] hd hs he hend (Or.inl rfl)⟩
      split at h
      · next more hcould =>
        obtain ⟨rfl, hcould⟩ := hcould
        split at h
        · next hdrop =>
          split at h <;> cases h
          exact ⟨by simp_all, rfl, .contentEnd element _ hd hs he hend
            (Or.inr ⟨more, rfl, hcould, List.drop_eq_nil_iff.mp hdrop⟩)⟩
        · split at h <;> cases h
      · cases h
    · cases h

/-- **What a step is blocked on.** The context may be known better than before it, but this does
not change how the text is read. -/
theorem blocked_of_step (h : ctx.step last c rest = .blocked next) :
    last = false ∧ ctx.Clearer next ∧ next.Undecided (c :: rest)
      ∧ ∀ last' rest', next.step last' c rest' = ctx.step last' c rest' := by
  -- in most states the step leaves the context as it is
  have same (h : last = false ∧ next = ctx ∧ ctx.Undecided (c :: rest)) :
      last = false ∧ ctx.Clearer next ∧ next.Undecided (c :: rest)
        ∧ ∀ last' rest', next.step last' c rest' = ctx.step last' c rest' := by
    obtain ⟨hlast, rfl, hu⟩ := h
    exact ⟨hlast, .same, hu, fun _ _ => rfl⟩
  simp only [step] at h
  cases hd : ctx.delim with
  | some delim =>
    rw [hd] at h
    exact same (blocked_of_stepValue (by rw [hd]; rfl) h)
  | none =>
    rw [hd] at h
    cases hs : ctx.state with
    | text =>
      simp only [hs, stepText] at h
      split at h
      · next hc =>
        subst hc
        obtain ⟨hlast, hnext, hopen⟩ := blocked_of_stepMarkup h
        exact same ⟨hlast, hnext, .markup rest hd hs hopen⟩
      · cases h
    | tagName =>
      simp only [hs, stepPartialTagName] at h
      split at h
      · next hc =>
        obtain ⟨-, -, hu⟩ := blocked_of_stepTag rfl rfl h
        cases hu <;> simp_all
      · cases h
    | tag => exact same (blocked_of_stepTag hd hs (by rwa [hs] at h))
    | attrName =>
      simp only [hs, stepPartialAttrName] at h
      split at h
      · next hc =>
        obtain ⟨-, -, -, hends⟩ := blocked_of_stepAfterName h
        simp [hends] at hc
      · cases h
    -- the name before the cursor is over, which is known from now on
    | afterName =>
      simp only [hs] at h
      obtain ⟨hlast, rfl, hu, hends⟩ := blocked_of_stepAfterName h
      refine ⟨hlast, .tag hd hs, hu, fun last' rest' => ?_⟩
      simp only [Html.endsAttrName, Html.endsTagName, Bool.or_eq_false_iff, beq_eq_false_iff_ne]
        at hends
      simp [step, hd, hs, inTag, stepAfterName, hends]
    -- the value has no quotes, which is known from now on
    | beforeValue =>
      simp only [hs, stepBeforeValue] at h
      split at h
      · cases h
      next hdouble =>
        split at h
        · cases h
        next hsingle =>
          split at h
          · cases h
          next hclose =>
            split at h
            · cases h
            next hspace =>
              obtain ⟨hlast, rfl, hu⟩ := blocked_of_stepValue rfl h
              refine ⟨hlast, .value hd hs, hu, fun last' rest' => ?_⟩
              simp [step, hd, hs, stepBeforeValue, hdouble, hsingle, hclose, hspace, attrValue]
    | comment => exact same (blocked_of_stepComment hd hs (by rwa [hs] at h))
    | bogusComment =>
      simp only [hs, stepBogusComment] at h
      cases h
    | plainValue | url | js | css | rcdata =>
      exact same (blocked_of_stepContent hd (by rw [hs]; rfl) (by rwa [hs] at h))

/-! ### Undecided text blocks a step -/

/-- A name that goes up to the end of the text is not decided. -/
theorem stepTagName_eq_blocked {opening : Text} {element : Text → Option Html.Element}
    (h : ∀ d ∈ rest, Html.endsTagName d = false) :
    ctx.stepTagName false opening element rest = .blocked ctx := by
  have hdrop : rest.dropWhile (!Html.endsTagName ·) = [] := by
    rw [List.dropWhile_eq_nil_iff]
    simpa using h
  simp [stepTagName, hdrop]

/-- Markup that is open is not decided. -/
theorem stepMarkup_eq_blocked (h : OpenMarkup rest) :
    ctx.stepMarkup false rest = .blocked ctx := by
  cases h with
  | opening t ht =>
    simp only [List.mem_cons, List.not_mem_nil, or_false] at ht
    rcases ht with rfl | rfl | rfl | rfl | rfl | rfl <;> rfl
  | tagName c name hc hname =>
    rw [stepMarkup_letter hc]
    exact stepTagName_eq_blocked hname
  | endTagName c name hc hname =>
    rw [stepMarkup_endTag hc]
    exact stepTagName_eq_blocked hname

/-- **Undecided text stays undecided** until there is more of it. -/
theorem Undecided.step (h : ctx.Undecided (c :: rest)) :
    ctx.step false c rest = .blocked ctx := by
  -- one case for each way of being undecided, each with the branch that waits
  cases h with
  | markup _ hd hs hrest =>
    simp only [Context.step, hd, hs, stepText, ↓reduceIte]
    exact stepMarkup_eq_blocked hrest
  | name _ _ hd hs hc hrest =>
    have hdrop : rest.dropWhile (!Html.endsAttrName ·) = [] := by
      rw [List.dropWhile_eq_nil_iff]
      simpa using hrest
    have hclose : c ≠ '>' := fun e => by simp [e, Html.endsTagName] at hc
    simp [Context.step, hd, hs, stepTag, hc, hclose, hdrop]
  | reference _ hd hrest =>
    obtain ⟨delim, hd⟩ := Option.isSome_iff_exists.mp hd
    simp only [Context.step, hd]
    cases delim <;> simp [stepValue, stepValueChar, hrest, isHtmlSpace]
  | commentEnd _ hd hs ht =>
    simp only [List.mem_cons, List.not_mem_nil, or_false] at ht
    simp only [Context.step, hd, hs]
    rcases ht with h | h | h <;> cases h <;> rfl
  | contentEnd element _ hd hs he hend hrest =>
    have hmarkup : ctx.stepContent false '<' rest = .blocked ctx := by
      simp only [stepContent, he, hend]
      rcases hrest with rfl | ⟨more, rfl, hcould, hlen⟩
      · rfl
      · have hdrop : more.drop element.tagName.length = [] := List.drop_eq_nil_iff.mpr hlen
        simp [stepContentMarkup, hcould, hdrop]
    rw [step_isContent hd hs, hmarkup]

end Context

end SafeMarkup
