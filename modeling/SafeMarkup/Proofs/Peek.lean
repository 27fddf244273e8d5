import SafeMarkup.Proofs.WellFormed

/-!
# Texts that only the language reads

In the content of an element only `<` can matter to the markup around it, and in a value only its
end and references can. All other characters go to the language at the cursor (`advance_content`,
`advance_value`). From this follows what an untrusted value is taken for that comes after undecided
text (`Undecided.peek`).
-/

namespace SafeMarkup

/-- Does the character neither end the value nor stand for something else in it? -/
def Delim.isPlain (delim : Delim) (c : Char) : Bool :=
  !delim.endsAt c && c != '&' && (delim != .autoQuote || c != '"')

/-- A reference consists of characters that are plain in every value. -/
theorem Delim.isPlain_of_isRefChar (delim : Delim) {c : Char}
    (h : Html.CharRef.isRefChar c = true) : delim.isPlain c = true := by
  have hne {d : Char} (hd : Html.CharRef.isRefChar d = false) : c ≠ d := ne_of_class h hd
  have hquote := hne (show Html.CharRef.isRefChar '"' = false by decide)
  have hspace : isHtmlSpace c = false := isHtmlSpace_of_class h (by decide)
  have happ := hne (show Html.CharRef.isRefChar '\'' = false by decide)
  have hamp := hne (show Html.CharRef.isRefChar '&' = false by decide)
  have hclose := hne (show Html.CharRef.isRefChar '>' = false by decide)
  cases delim <;> simp [isPlain, endsAt, hspace, hquote, happ, hamp, hclose]

/-- What could be the name of an element consists of letters. -/
theorem Html.Element.notMem_of_couldEnd {element : Html.Element} {t : Text} {c : Char}
    (hc : c.toLower.isAlpha = false) (h : element.couldEnd t = true)
    (hlen : t.length ≤ element.tagName.length) : c ∉ t := by
  intro hmem
  obtain ⟨i, hi, hget⟩ := List.mem_iff_getElem.mp hmem
  have hi' : i < element.tagName.length := by omega
  have hpair : (t[i], element.tagName[i]) ∈ t.zip element.tagName := by
    rw [List.mem_iff_getElem]
    exact ⟨i, by simp; omega, by simp⟩
  have hletter := List.all_eq_true.mp h _ hpair
  have hname : element.tagName.all Char.isAlpha = true := by cases element <;> decide
  rw [hget] at hletter
  rw [eq_of_beq hletter, List.all_eq_true.mp hname _ (List.getElem_mem _)] at hc
  cases hc

namespace Context

variable {ctx next : Context} {last : Bool} {c : Char} {rest t : Text}

theorem SamePlace.isContent (h : ctx.SamePlace next) :
    next.state.isContent = ctx.state.isContent := by
  have hentry := h.entry
  cases hs : ctx.state <;> cases hs' : next.state <;> simp_all [State.entry, State.isContent]

/-! ### Content -/

/-- In content every character but a `<` is read on its own. -/
theorem step_content (hd : ctx.delim = none) (hs : ctx.state.isContent = true) (hc : c ≠ '<') :
    ctx.step last c rest = .consumed (ctx.feed c) [c] 1 := by
  rw [step_isContent hd hs, stepContent]
  split
  · rfl
  · rw [if_neg (fun h => hc h.1)]
    rfl

/-- Content without a `<` is left to the language at the cursor. -/
theorem advance_content (hd : ctx.delim = none) (hs : ctx.state.isContent = true) (ht : '<' ∉ t) :
    ctx.advance last t = ⟨ctx.feedAll t, t, []⟩ := by
  induction t generalizing ctx with
  | nil => rfl
  | cons c t ih =>
    have hplace := samePlace_feed ctx c
    rw [List.mem_cons, not_or] at ht
    rw [advance_consumed (step_content hd hs (Ne.symm ht.1)), List.drop_zero,
      ih (hplace.delim.trans hd) (hplace.isContent.trans hs) ht.2]
    rfl

/-! ### Values -/

theorem step_value {delim : Delim} (hd : ctx.delim = some delim) (hc : delim.isPlain c = true) :
    ctx.step last c rest = .consumed (ctx.feed c) [c] 1 := by
  cases delim <;>
    simp_all [Delim.isPlain, Delim.endsAt, Context.step, stepValue, stepValueChar, stepChar]

/-- No value ends at an `&`. -/
theorem step_amp (hd : ctx.delim.isSome = true) :
    ctx.step last '&' rest = ctx.stepValueChar last '&' rest := by
  obtain ⟨delim, hd⟩ := Option.isSome_iff_exists.mp hd
  cases delim <;> simp [Context.step, hd, stepValue, isHtmlSpace]

/-- A value without references is left to the language at the cursor. -/
theorem advance_value {delim : Delim} (hd : ctx.delim = some delim)
    (ht : ∀ c ∈ t, delim.isPlain c = true) : ctx.advance last t = ⟨ctx.feedAll t, t, []⟩ := by
  induction t generalizing ctx with
  | nil => rfl
  | cons c t ih =>
    have ht' := List.forall_mem_cons.mp ht
    rw [advance_consumed (step_value hd ht'.1), List.drop_zero,
      ih ((samePlace_feed ctx c).delim.trans hd) ht'.2]
    rfl

/-! ### References at the end of a value -/

/-- What an open reference is read as where the value ends. -/
def meaning (rest : Text) : Text :=
  match Html.CharRef.scan true rest with
  | .complete _ char => [char]
  | .incomplete | .absent => '&' :: rest

/-- **An open reference where the value ends**, because nothing follows or because `t` ends it. -/
theorem advance_openReference {t : Text} (hd : ctx.delim.isSome = true)
    (hopen : Html.CharRef.scan false rest = .incomplete)
    (hend : Html.CharRef.scan last (rest ++ t) = Html.CharRef.scan true rest) :
    ctx.advance last ('&' :: rest ++ t)
      = ((ctx.feedAll (meaning rest)).advance last t).after ('&' :: rest) := by
  obtain ⟨delim, hdelim⟩ := Option.isSome_iff_exists.mp hd
  obtain ⟨hrun, hcomplete⟩ := Html.CharRef.scan_incomplete hopen
  have hstep : ctx.step last '&' (rest ++ t) = ctx.stepValueChar last '&' (rest ++ t) := step_amp hd
  rw [stepValueChar, if_pos rfl, hend] at hstep
  rw [List.cons_append, meaning]
  -- the end of the value settles whether there is a reference
  cases hscan : Html.CharRef.scan true rest with
  | incomplete => exact absurd hscan (Html.CharRef.scan_last rest)
  | complete length char =>
    -- all of `rest` belongs to the reference
    have hlen : length = rest.length + 1 := by rw [(hcomplete length char hscan).1, Nat.add_comm]
    rw [hscan, hlen] at hstep
    have htake : ('&' :: (rest ++ t)).take (rest.length + 1) = '&' :: rest := by simp
    simp only [Step.copy, htake] at hstep
    rw [advance_consumed hstep, Nat.add_sub_cancel, List.drop_left]
    rfl
  | absent =>
    -- the characters are read one by one
    have hfeed : (ctx.feed '&').delim = some delim := (samePlace_feed ctx '&').delim.trans hdelim
    have hplain : (ctx.feed '&').advance false rest = ⟨(ctx.feed '&').feedAll rest, rest, []⟩ :=
      advance_value hfeed fun c hc => delim.isPlain_of_isRefChar (hrun c hc)
    rw [hscan] at hstep
    rw [advance_consumed hstep, Nat.sub_self, List.drop_zero, advance_append, hplain, after_after]
    rfl

theorem advance_openReference_last (hd : ctx.delim.isSome = true)
    (hopen : Html.CharRef.scan false rest = .incomplete) :
    ctx.advance true ('&' :: rest) = ⟨ctx.feedAll (meaning rest), '&' :: rest, []⟩ := by
  have hread : ctx.advance true ('&' :: rest ++ []) = _ :=
    advance_openReference hd hopen (by rw [List.append_nil])
  simpa [Progress.after] using hread

/-! ### Values after undecided text -/

/-- What a value is taken for that comes after undecided text. -/
inductive Peeks (ctx : Context) : Context → Prop where
  | markup (hd : ctx.delim = none) (hs : ctx.state = .text) (state : State)
      (hstate : state = .tagName ∨ state = .comment ∨ state = .bogusComment) :
      Peeks ctx { ctx with state }
  | name (hd : ctx.delim = none) (hs : ctx.state = .tag) (kind : Html.AttrKind) :
      Peeks ctx { ctx with attr := some kind, state := .attrName }
  | comment (hd : ctx.delim = none) (hs : ctx.state = .comment) : Peeks ctx ctx
  | value (hd : ctx.delim.isSome = true) (s : Text) : Peeks ctx (ctx.feedAll s)
  | content (hd : ctx.delim = none) (hs : ctx.state.isContent = true) (t : Text) :
      Peeks ctx (ctx.feedAll t)

/-- One step over all of the text says what the value is taken for. -/
theorem peek_eq_of_step {w : Text}
    (h : ctx.step true c rest = .consumed next w (rest.length + 1)) :
    ctx.peek (c :: rest) = next := by
  rw [peek, advance_consumed h]
  simp

/-- A name that nothing follows is not complete, so the cursor stays in it. -/
theorem stepTagName_last {opening : Text} {element : Text → Option Html.Element}
    (h : ∀ d ∈ rest, Html.endsTagName d = false) :
    ctx.stepTagName true opening element rest
      = .consumed { ctx with state := .tagName } (opening ++ rest)
          (opening.length + rest.length) := by
  -- no character ends the name, so the scan takes all of them
  have htake : rest.takeWhile (!Html.endsTagName ·) = rest := by
    rw [List.takeWhile_eq_self_iff]
    simpa using h
  have hdrop : rest.dropWhile (!Html.endsTagName ·) = [] := by
    rw [List.dropWhile_eq_nil_iff]
    simpa using h
  simp only [stepTagName, htake, hdrop, ↓reduceIte]

/-- A name after a `<` that nothing follows is the start of a tag. -/
theorem peek_startTag (hc : c.isAlpha = true)
    (hname : ∀ d ∈ c :: rest, Html.endsTagName d = false) :
    peek {} ('<' :: c :: rest) = { state := .tagName } := by
  have hstep : step {} true '<' (c :: rest)
      = stepTagName {} true ['<'] Html.Element.ofTagName? (c :: rest) := stepMarkup_letter hc
  rw [stepTagName_last hname] at hstep
  exact peek_eq_of_step (w := '<' :: c :: rest) (by rw [hstep]; simp; omega)

/-- A name after `</` that nothing follows is the name of an end tag. -/
theorem peek_endTag (hc : c.isAlpha = true)
    (hname : ∀ d ∈ c :: rest, Html.endsTagName d = false) :
    peek {} ('<' :: '/' :: c :: rest) = { state := .tagName } := by
  have hstep : step {} true '<' ('/' :: c :: rest)
      = stepTagName {} true ['<', '/'] (fun _ => none) (c :: rest) := stepMarkup_endTag hc
  rw [stepTagName_last hname] at hstep
  exact peek_eq_of_step (w := '<' :: '/' :: c :: rest) (by rw [hstep]; simp; omega)

/-- Markup that is held back is taken for a tag, a comment or a bogus comment. -/
theorem peek_openMarkup (h : OpenMarkup rest) :
    ∃ state, (state = .tagName ∨ state = .comment ∨ state = .bogusComment)
      ∧ peek {} ('<' :: rest) = { state } := by
  cases h with
  | opening _ ht =>
    simp only [List.mem_cons, List.not_mem_nil, or_false] at ht
    rcases ht with rfl | rfl | rfl | rfl | rfl | rfl
    · exact ⟨.tagName, Or.inl rfl, rfl⟩
    · exact ⟨.tagName, Or.inl rfl, rfl⟩
    · exact ⟨.bogusComment, Or.inr (Or.inr rfl), rfl⟩
    · exact ⟨.bogusComment, Or.inr (Or.inr rfl), rfl⟩
    · exact ⟨.comment, Or.inr (Or.inl rfl), rfl⟩
    · exact ⟨.comment, Or.inr (Or.inl rfl), rfl⟩
  | tagName c name hc hname => exact ⟨.tagName, Or.inl rfl, peek_startTag hc hname⟩
  | endTagName c name hc hname => exact ⟨.tagName, Or.inl rfl, peek_endTag hc hname⟩

/-- What could have become an end tag is read by the language if the content ends there. -/
theorem peek_contentEnd {element : Html.Element} (hd : ctx.delim = none)
    (hs : ctx.state.isContent = true) (he : ctx.element = some element)
    (hend : element.hasEndTag = true)
    (hrest : rest = [] ∨ ∃ more, rest = '/' :: more ∧ element.couldEnd more = true
      ∧ more.length ≤ element.tagName.length) :
    ctx.peek ('<' :: rest) = ctx.feedAll ('<' :: rest) := by
  have hrest' : '<' ∉ rest := by
    rcases hrest with rfl | ⟨more, rfl, hcould, hlen⟩
    · simp
    · have hmore := Html.Element.notMem_of_couldEnd (c := '<') (by decide) hcould hlen
      simpa using hmore
  -- the end of the text leaves the name of the end tag incomplete, so the `<` is content
  have hmarkup : ctx.stepContent true '<' rest = .consumed (ctx.feed '<') ['<'] 1 := by
    simp only [stepContent, he, hend]
    rcases hrest with rfl | ⟨more, rfl, hcould, hlen⟩
    · rfl
    · have hdrop : more.drop element.tagName.length = [] := List.drop_eq_nil_iff.mpr hlen
      simp [stepContentMarkup, hcould, hdrop, stepChar]
  have hstep : ctx.step true '<' rest = .consumed (ctx.feed '<') ['<'] 1 :=
    (step_isContent hd hs).trans hmarkup
  have hplace := samePlace_feed ctx '<'
  rw [Context.peek, advance_consumed hstep, after_context, List.drop_zero,
    advance_content (hplace.delim.trans hd) (hplace.isContent.trans hs) hrest']
  rfl

/-- A name in a tag that nothing follows is that of an attribute. -/
theorem peek_startOfAttr (hd : ctx.delim = none) (hs : ctx.state = .tag)
    (hc : Html.endsTagName c = false) (hrest : ∀ d ∈ rest, Html.endsAttrName d = false) :
    ctx.peek (c :: rest)
      = { ctx with attr := some (Html.AttrKind.ofName (c :: rest)), state := .attrName } := by
  have htake : rest.takeWhile (!Html.endsAttrName ·) = rest := by
    rw [List.takeWhile_eq_self_iff]
    simpa using hrest
  have hdrop : rest.dropWhile (!Html.endsAttrName ·) = [] := by
    rw [List.dropWhile_eq_nil_iff]
    simpa using hrest
  have hclose : c ≠ '>' := fun e => by simp [e, Html.endsTagName] at hc
  have hstep : ctx.step true c rest = .consumed
      { ctx with attr := some (Html.AttrKind.ofName (c :: rest)), state := .attrName }
      (c :: rest) (rest.length + 1) := by
    simp [Context.step, hd, hs, stepTag, hclose, hc, htake, hdrop]
  exact peek_eq_of_step hstep

/-- **What a value is taken for after undecided text.** -/
theorem Undecided.peek (hw : ctx.WellFormed) (h : ctx.Undecided t) : ctx.Peeks (ctx.peek t) := by
  cases h with
  | markup rest hd hs hrest =>
    -- a context in text has nothing else to remember
    have hctx : ctx = {} := by rw [hw.of_text (by rw [hs]; rfl), hs]
    obtain ⟨state, hstate, hpeek⟩ := peek_openMarkup hrest
    subst hctx
    rw [hpeek]
    exact .markup rfl rfl state hstate
  | name c rest hd hs hc hrest =>
    rw [peek_startOfAttr hd hs hc hrest]
    exact .name hd hs _
  | reference rest hd hrest =>
    rw [Context.peek, advance_openReference_last hd hrest]
    exact .value hd (meaning rest)
  | commentEnd _ hd hs ht =>
    have hctx : ctx = { state := .comment } := by
      rw [hw.of_text (by rw [hs]; rfl), hs]
    simp only [List.mem_cons, List.not_mem_nil, or_false] at ht
    subst hctx
    -- the three ends that can still become the end of the comment
    rcases ht with rfl | rfl | rfl <;> exact .comment rfl rfl
  | contentEnd element rest hd hs he hend hrest =>
    rw [peek_contentEnd hd hs he hend hrest]
    exact .content hd hs ('<' :: rest)

/-- What is undecided is never the end of a value. -/
theorem Peeks.delim (h : ctx.Peeks next) : next.delim = ctx.delim := by
  cases h with
  | markup | name | comment => rfl
  | value _ s => exact (samePlace_feedAll ctx s).delim
  | content _ _ t => exact (samePlace_feedAll ctx t).delim

/-- Outside of values and contents the place tells what has been undecided: markup, a name in a tag,
or the end of a comment. -/
theorem Peeks.of_not_isContent (hw : ctx.WellFormed) (h : ctx.Peeks next)
    (hs : next.state.isContent = false) :
    (ctx.state = .text ∧ next.state.isText = true)
      ∨ (ctx.state = .tag ∧ next.state = .attrName)
      ∨ (ctx.state = .comment ∧ next.state = .comment) := by
  have hcontent {s : Text} (hin : ctx.state.isContent = true) :
      (ctx.feedAll s).state.isContent = true := (samePlace_feedAll ctx s).isContent.trans hin
  cases h with
  | markup _ hs' state hstate =>
    refine .inl ⟨hs', ?_⟩
    rcases hstate with rfl | rfl | rfl <;> rfl
  | name _ hs' => exact .inr (.inl ⟨hs', rfl⟩)
  | comment _ hs' => exact .inr (.inr ⟨hs', hs'⟩)
  | value hd s =>
    obtain ⟨delim, hd⟩ := Option.isSome_iff_exists.mp hd
    rw [hcontent (hw.of_delim hd).2.2] at hs
    cases hs
  | content _ hin => rw [hcontent hin] at hs; cases hs

/-- Undecided text does not end where a value could start. -/
theorem Peeks.state_ne (hw : ctx.WellFormed) (h : ctx.Peeks next) : next.state ≠ .beforeValue := by
  have hcontent {s : Text} (hs : ctx.state.isContent = true) :
      (ctx.feedAll s).state ≠ .beforeValue := by
    intro e
    have := (samePlace_feedAll ctx s).isContent.trans hs
    rw [e] at this
    cases this
  cases h with
  | markup _ _ _ hstate => rcases hstate with rfl | rfl | rfl <;> simp
  | name => simp
  | comment _ hs => simp [hs]
  | value hd s =>
    obtain ⟨delim, hd⟩ := Option.isSome_iff_exists.mp hd
    exact hcontent (hw.of_delim hd).2.2
  | content _ hs => exact hcontent hs

end Context

end SafeMarkup
