import SafeMarkup.Context.Step
import SafeMarkup.Proofs.CharRef
import SafeMarkup.Proofs.Feed

/-!
# What a step can do

`Next` lists the contexts that a step can lead to, by the place where it starts and by the first
character that it decides on. `Undecided` lists the texts on which a step can be blocked. All
invariants of the following modules are read off these two lists, and none of them opens a step
again.
-/

namespace SafeMarkup

/-- Does `c` end a value that is delimited in this way? -/
def Delim.endsAt : Delim → Char → Bool
  | .doubleQuote, c => c == '"'
  | .singleQuote, c => c == '\''
  | .spaceOrTagEnd, c | .autoQuote, c => c == '>' || isHtmlSpace c

namespace State

/-- In the content of an element that is not markup, if not in a value? -/
def isContent : State → Bool
  | .plainValue | .url | .js _ | .css _ | .rcdata => true
  | _ => false

/-- In a tag, after a part of an attribute? -/
def isAfterAttrName : State → Bool
  | .attrName | .afterName => true
  | _ => false

end State

namespace Context

/-- The contexts after a step at `ctx` that decides on a text starting with `c`. -/
inductive Next (ctx : Context) (c : Char) : Context → Prop where
  | inValue (delim : Delim) (hd : ctx.delim = some delim) (hc : delim.endsAt c = false)
      (d : Char) : Next ctx c (ctx.feed d)
  | valueEnd (delim : Delim) (hd : ctx.delim = some delim) (hc : delim.endsAt c = true)
      (next : Context) (hnext : next = ctx.inTag ∨ next = ctx.closeTag) : Next ctx c next
  | inText (hd : ctx.delim = none) (hs : ctx.state = .text) : Next ctx c ctx
  | markup (hd : ctx.delim = none) (hs : ctx.state = .text) (hc : c = '<') (state : State)
      (hstate : state = .tagName ∨ state = .comment ∨ state = .bogusComment) :
      Next ctx c { ctx with state }
  | tagStart (hd : ctx.delim = none) (hs : ctx.state = .text) (hc : c = '<')
      (element : Option Html.Element) : Next ctx c { state := .tag, element }
  | inTagName (hd : ctx.delim = none) (hs : ctx.state = .tagName) : Next ctx c ctx
  | tagNameEnd (hd : ctx.delim = none) (hs : ctx.state = .tagName) (next : Context)
      (hnext : next = { state := .tag } ∨ next = {}) : Next ctx c next
  | inTag (hd : ctx.delim = none) (hs : ctx.state = .tag) : Next ctx c ctx
  | attr (hd : ctx.delim = none) (hs : ctx.state = .tag) (kind : Html.AttrKind) (state : State)
      (hstate : state.isAfterAttrName = true) :
      Next ctx c { ctx with attr := some kind, state }
  | tagClose (hd : ctx.delim = none)
      (hs : ctx.state = .tag ∨ ctx.state.isAfterAttrName = true ∨ ctx.state = .beforeValue) :
      Next ctx c ctx.closeTag
  | inAttrName (hd : ctx.delim = none) (hs : ctx.state = .attrName) : Next ctx c ctx
  | afterName (hd : ctx.delim = none) (hs : ctx.state.isAfterAttrName = true) (state : State)
      (hstate : state = .afterName ∨ state = .beforeValue) : Next ctx c { ctx with state }
  | noValue (hd : ctx.delim = none) (hs : ctx.state.isAfterAttrName = true) : Next ctx c ctx.inTag
  | nextAttr (hd : ctx.delim = none) (hs : ctx.state.isAfterAttrName = true)
      (kind : Html.AttrKind) (state : State) (hstate : state.isAfterAttrName = true) :
      Next ctx c { ctx.inTag with attr := some kind, state }
  | beforeValue (hd : ctx.delim = none) (hs : ctx.state = .beforeValue) : Next ctx c ctx
  | valueStart (hd : ctx.delim = none) (hs : ctx.state = .beforeValue) (delim : Delim)
      (hdelim : delim = .doubleQuote ∨ delim = .singleQuote) : Next ctx c (ctx.attrValue delim)
  | unquotedStart (hd : ctx.delim = none) (hs : ctx.state = .beforeValue) (d : Char) :
      Next ctx c ((ctx.attrValue .spaceOrTagEnd).feed d)
  | inComment (hd : ctx.delim = none) (hs : ctx.state = .comment ∨ ctx.state = .bogusComment) :
      Next ctx c ctx
  | commentEnd (hd : ctx.delim = none) (hs : ctx.state = .comment ∨ ctx.state = .bogusComment) :
      Next ctx c { ctx with state := .text }
  | inContent (hd : ctx.delim = none) (hs : ctx.state.isContent = true) (d : Char) :
      Next ctx c (ctx.feed d)
  | contentEnd (hd : ctx.delim = none) (hs : ctx.state.isContent = true) (hc : c = '<') :
      Next ctx c { state := .tag }

variable {ctx next : Context} {last : Bool} {c : Char} {rest w : Text} {u : Nat}

/-! ### Reading a decision -/

/-- In content, whatever the language, only the end tag matters. -/
theorem step_isContent (hd : ctx.delim = none) (hs : ctx.state.isContent = true) :
    ctx.step last c rest = ctx.stepContent last c rest := by
  cases hstate : ctx.state with
  | plainValue | url | js | css | rcdata => simp only [step, hd, hstate]
  | _ => rw [hstate] at hs; cases hs

/-- A letter after a `<` starts the name of a tag. -/
theorem stepMarkup_letter (hc : c.isAlpha = true) :
    ctx.stepMarkup last (c :: rest)
      = ctx.stepTagName last ['<'] Html.Element.ofTagName? (c :: rest) := by
  have hne {d : Char} (hd : d.isAlpha = false) : c ≠ d := ne_of_class hc hd
  have hbang := hne (show Char.isAlpha '!' = false by decide)
  have hquestion := hne (show Char.isAlpha '?' = false by decide)
  have hslash := hne (show Char.isAlpha '/' = false by decide)
  simp [Context.stepMarkup, hbang, hquestion, hslash, hc]

/-- After `</` a letter starts the name of an end tag. -/
theorem stepMarkup_endTag (hc : c.isAlpha = true) :
    ctx.stepMarkup last ('/' :: c :: rest)
      = ctx.stepTagName last ['<', '/'] (fun _ => none) (c :: rest) := by
  show ctx.stepEndTag last (c :: rest) = _
  simp [stepEndTag, hc]

/-- A step in a value reads one character, which stands for a reference or for itself. -/
theorem next_of_stepValueChar (h : ctx.stepValueChar last c rest = .consumed next w u) :
    ∃ d, next = ctx.feed d := by
  unfold stepValueChar stepChar Step.copy at h
  split at h
  · split at h
    · cases h; exact ⟨_, rfl⟩
    · cases h
    · cases h; exact ⟨_, rfl⟩
  · cases h; exact ⟨_, rfl⟩

/-- A step in a value reads a character, unless the value ends there. -/
theorem next_of_stepValue {delim : Delim}
    (h : ctx.stepValue delim last c rest = .consumed next w u) :
    (delim.endsAt c = false ∧ ∃ d, next = ctx.feed d)
      ∨ (delim.endsAt c = true ∧ (next = ctx.inTag ∨ next = ctx.closeTag)) := by
  cases delim with
  | doubleQuote =>
    simp only [stepValue] at h
    split at h
    · next hc => cases h; exact Or.inr ⟨by simp [Delim.endsAt, hc], Or.inl rfl⟩
    · next hc => exact Or.inl ⟨by simp [Delim.endsAt, hc], next_of_stepValueChar h⟩
  | singleQuote =>
    simp only [stepValue] at h
    split at h
    · next hc => cases h; exact Or.inr ⟨by simp [Delim.endsAt, hc], Or.inl rfl⟩
    · next hc => exact Or.inl ⟨by simp [Delim.endsAt, hc], next_of_stepValueChar h⟩
  | spaceOrTagEnd =>
    simp only [stepValue] at h
    split at h
    · next hc => cases h; exact Or.inr ⟨by simp [Delim.endsAt, hc], Or.inr rfl⟩
    split at h
    · next hc => cases h; exact Or.inr ⟨by simp [Delim.endsAt, hc], Or.inl rfl⟩
    · next hc hs => exact Or.inl ⟨by simp [Delim.endsAt, hc, hs], next_of_stepValueChar h⟩
  | autoQuote =>
    simp only [stepValue] at h
    split at h
    · next hc => cases h; exact Or.inr ⟨by simp [Delim.endsAt, hc], Or.inr rfl⟩
    split at h
    · next hc => cases h; exact Or.inr ⟨by simp [Delim.endsAt, hc], Or.inl rfl⟩
    -- added quotes end where an unquoted value would
    have hc : Delim.autoQuote.endsAt c = false := by simp_all [Delim.endsAt]
    split at h
    · cases h; exact Or.inl ⟨hc, _, rfl⟩
    · exact Or.inl ⟨hc, next_of_stepValueChar h⟩

/-- After the name of a tag the cursor is in the tag. -/
theorem next_of_stepTagName (hd : ctx.delim = none) (hs : ctx.state = .text) {opening : Text}
    {element : Text → Option Html.Element}
    (h : ctx.stepTagName last opening element rest = .consumed next w u) : ctx.Next '<' next := by
  simp only [stepTagName] at h
  split at h
  · cases h; exact .tagStart hd hs rfl _
  · split at h
    · cases h; exact .markup hd hs rfl _ (Or.inl rfl)
    · cases h

/-- A declaration starts a comment, of one kind or the other. -/
theorem next_of_stepDeclaration (hd : ctx.delim = none) (hs : ctx.state = .text)
    (h : ctx.stepDeclaration last rest = .consumed next w u) : ctx.Next '<' next := by
  have comment : ctx.Next '<' { ctx with state := .comment } :=
    .markup hd hs rfl _ (Or.inr (Or.inl rfl))
  have bogusComment : ctx.Next '<' { ctx with state := .bogusComment } :=
    .markup hd hs rfl _ (Or.inr (Or.inr rfl))
  simp only [stepDeclaration, Step.copy] at h
  split at h
  · cases h; exact .inText hd hs
  · cases h; exact .inText hd hs
  · split at h <;> cases h; exact comment
  · split at h <;> cases h; exact comment
  · cases h; exact comment
  · split at h <;> cases h; exact bogusComment
  · split at h <;> cases h; exact bogusComment
  · cases h; exact bogusComment

/-- A `<` in text starts a tag or ignored markup, or stands for itself. -/
theorem next_of_stepMarkup (hd : ctx.delim = none) (hs : ctx.state = .text)
    (h : ctx.stepMarkup last rest = .consumed next w u) : ctx.Next '<' next := by
  have tagName : ctx.Next '<' { ctx with state := .tagName } := .markup hd hs rfl _ (Or.inl rfl)
  have bogusComment : ctx.Next '<' { ctx with state := .bogusComment } :=
    .markup hd hs rfl _ (Or.inr (Or.inr rfl))
  -- nothing after the `<`: a tag, if the text ends here
  rcases rest with _ | ⟨c, more⟩
  · simp only [stepMarkup, Step.copy] at h
    split at h <;> cases h
    exact tagName
  simp only [stepMarkup] at h
  split at h
  · exact next_of_stepDeclaration hd hs h
  split at h
  · cases h; exact bogusComment
  split at h
  · rcases more with _ | ⟨d, more⟩
    · simp only [stepEndTag, Step.copy] at h
      split at h <;> cases h
      exact tagName
    simp only [stepEndTag] at h
    split at h
    · exact next_of_stepTagName hd hs h
    split at h
    · cases h; exact .inText hd hs
    · cases h; exact bogusComment
  split at h
  · exact next_of_stepTagName hd hs h
  · cases h; exact .inText hd hs

/-- A step between attributes skips a character, closes the tag or reads a name. -/
theorem next_of_stepTag (h : ctx.stepTag last c rest = .consumed next w u) :
    next = ctx ∨ (c = '>' ∧ next = ctx.closeTag)
      ∨ Html.endsTagName c = false ∧ ∃ kind state, state.isAfterAttrName = true
        ∧ next = { ctx with attr := some kind, state } := by
  simp only [stepTag] at h
  split at h
  · next hc => cases h; exact Or.inr (Or.inl ⟨hc, rfl⟩)
  split at h
  · cases h; exact Or.inl rfl
  next hc =>
    have hc : Html.endsTagName c = false := by simpa using hc
    split at h
    · cases h; exact Or.inr (Or.inr ⟨hc, _, .afterName, rfl, rfl⟩)
    · split at h <;> cases h
      exact Or.inr (Or.inr ⟨hc, _, .attrName, rfl, rfl⟩)

/-- After a name it does not matter whether the name has been decided on in one piece. -/
theorem next_of_stepAfterName (hd : ctx.delim = none) (hs : ctx.state.isAfterAttrName = true)
    (h : stepAfterName { ctx with state := .afterName } last c rest = .consumed next w u) :
    ctx.Next c next := by
  simp only [stepAfterName] at h
  split at h
  · cases h; exact .afterName hd hs _ (Or.inr rfl)
  split at h
  · cases h; exact .tagClose hd (Or.inr (Or.inl hs))
  split at h
  · cases h; exact .afterName hd hs _ (Or.inl rfl)
  · rcases next_of_stepTag h with rfl | ⟨-, rfl⟩ | ⟨-, kind, state, hstate, rfl⟩
    · exact .noValue hd hs
    · exact .tagClose hd (Or.inr (Or.inl hs))
    · exact .nextAttr hd hs kind state hstate

/-- In content a character is read, or the content ends before an end tag. -/
theorem next_of_stepContent (hd : ctx.delim = none) (hs : ctx.state.isContent = true)
    (h : ctx.stepContent last c rest = .consumed next w u) : ctx.Next c next := by
  -- wherever the end tag is ruled out, the `<` is read like any other character
  have read {d : Char} (h : ctx.stepChar d = .consumed next w u) : ctx.Next c next := by
    cases h; exact .inContent hd hs d
  simp only [stepContent] at h
  split at h
  · exact read h
  split at h
  · next hc =>
    simp only [stepContentMarkup] at h
    split at h
    · split at h
      · exact read h
      · cases h
    split at h
    · split at h
      · split at h
        · exact read h
        · cases h
      · split at h
        · cases h; exact .contentEnd hd hs hc.1
        · exact read h
    · exact read h
  · exact read h

/-- **What a decision can lead to.** -/
theorem next_of_step (h : ctx.step last c rest = .consumed next w u) : ctx.Next c next := by
  simp only [step] at h
  cases hd : ctx.delim with
  | some delim =>
    rw [hd] at h
    -- in a value only its delimiter and its characters matter
    rcases next_of_stepValue h with ⟨hc, d, rfl⟩ | ⟨hc, hnext⟩
    · exact .inValue delim hd hc d
    · exact .valueEnd delim hd hc next hnext
  | none =>
    rw [hd] at h
    cases hs : ctx.state with
    | text =>
      simp only [hs, stepText] at h
      split at h
      · next hc => subst hc; exact next_of_stepMarkup hd hs h
      · cases h; exact .inText hd hs
    -- inside a name that has been given up on only its end matters
    | tagName =>
      simp only [hs, stepPartialTagName] at h
      split at h
      · rcases next_of_stepTag h with rfl | ⟨-, rfl⟩ | ⟨hc, -⟩
        · exact .tagNameEnd hd hs _ (Or.inl rfl)
        · exact .tagNameEnd hd hs _ (Or.inr rfl)
        · simp_all
      · cases h; exact .inTagName hd hs
    | tag =>
      simp only [hs] at h
      rcases next_of_stepTag h with rfl | ⟨-, rfl⟩ | ⟨-, kind, state, hstate, rfl⟩
      · exact .inTag hd hs
      · exact .tagClose hd (Or.inl hs)
      · exact .attr hd hs kind state hstate
    | attrName =>
      simp only [hs, stepPartialAttrName] at h
      split at h
      · exact next_of_stepAfterName hd (by rw [hs]; rfl) h
      · cases h; exact .inAttrName hd hs
    | afterName =>
      simp only [hs] at h
      have hctx : { ctx with state := .afterName } = ctx := by rw [← hs]
      exact next_of_stepAfterName hd (by rw [hs]; rfl) (by rwa [hctx])
    | beforeValue =>
      simp only [hs, stepBeforeValue] at h
      split at h
      · cases h; exact .valueStart hd hs _ (Or.inl rfl)
      split at h
      · cases h; exact .valueStart hd hs _ (Or.inr rfl)
      split at h
      · cases h; exact .tagClose hd (Or.inr (Or.inr hs))
      split at h
      · cases h; exact .beforeValue hd hs
      · rcases next_of_stepValue h with ⟨-, d, rfl⟩ | ⟨hc, -⟩
        · exact .unquotedStart hd hs d
        · simp_all [Delim.endsAt]
    -- the branches are the two ends, the three starts of them, and any other character
    | comment =>
      simp only [hs, stepComment, Step.copy] at h
      have hs' : ctx.state = .comment ∨ ctx.state = .bogusComment := Or.inl hs
      split at h
      · cases h; exact .commentEnd hd hs'
      · cases h; exact .commentEnd hd hs'
      · split at h <;> cases h; exact .inComment hd hs'
      · split at h <;> cases h; exact .inComment hd hs'
      · split at h <;> cases h; exact .inComment hd hs'
      · cases h; exact .inComment hd hs'
    | bogusComment =>
      simp only [hs, stepBogusComment] at h
      cases h
      split
      · exact .commentEnd hd (Or.inr hs)
      · exact .inComment hd (Or.inr hs)
    -- all other states are content, which one lemma is for
    | plainValue | url | js | css | rcdata =>
      exact next_of_stepContent hd (by rw [hs]; rfl) (by rwa [hs] at h)

theorem delim_ne_of_eq_none (h : ctx.delim = none) : ctx.delim ≠ some .autoQuote := by
  rw [h]
  exact (Option.some_ne_none _).symm

/-- Only untrusted values are put in quotes. -/
theorem Next.delim_ne (hn : ctx.Next c next) (hd : ctx.delim ≠ some .autoQuote) :
    next.delim ≠ some .autoQuote := by
  cases hn with
  | inValue _ _ _ d => rwa [(samePlace_feed ctx d).delim]
  | inContent _ _ d => rwa [(samePlace_feed ctx d).delim]
  | valueEnd _ _ _ _ hnext | tagNameEnd _ _ _ hnext =>
    rcases hnext with rfl | rfl <;> exact delim_ne_of_eq_none rfl
  | unquotedStart _ _ d =>
    rw [(samePlace_feed _ d).delim]
    simp [attrValue]
  | valueStart _ _ delim hdelim => rcases hdelim with rfl | rfl <;> simp [attrValue]
  | inText | markup | inTagName | inTag | attr | inAttrName | afterName | beforeValue
  | inComment | commentEnd => exact hd
  | tagStart | tagClose | noValue | nextAttr | contentEnd => exact delim_ne_of_eq_none rfl

/-! ### What is written

Outside of values that have been put in quotes a step writes what it decides on. -/

/-- A step that decides on some of `text` and writes it as it is. -/
def Copies (text : Text) (step : Step) : Prop :=
  ∀ next w u, step = .consumed next w u → 0 < u ∧ u ≤ text.length ∧ w = text.take u

theorem copies_blocked {text : Text} : Copies text (.blocked ctx) := by
  intro next' w' u' e
  cases e

/-- A step that takes a part of the text writes this part. -/
theorem copies_copy {text : Text} (h0 : 0 < u) (h : u ≤ text.length) :
    Copies text (.copy next text u) := by
  intro next' w' u' e
  cases e
  exact ⟨h0, h, rfl⟩

theorem copies_one : Copies (c :: rest) (.consumed next [c] 1) := by
  intro next' w' u' e
  cases e
  exact ⟨Nat.one_pos, by simp, by simp⟩

/-- A choice copies if both sides do. -/
theorem copies_if {p : Prop} [Decidable p] {text : Text} {a b : Step} (ha : p → Copies text a)
    (hb : ¬ p → Copies text b) : Copies text (if p then a else b) := by
  split
  · next h => exact ha h
  · next h => exact hb h

/-- A character of a value is copied, as part of a reference or on its own. -/
theorem copies_stepValueChar : Copies (c :: rest) (ctx.stepValueChar last c rest) := by
  unfold stepValueChar
  refine copies_if (fun hc => ?_) (fun _ => copies_one)
  split
  · next length char h =>
    have hlen := Html.CharRef.scan_length h
    exact copies_copy hlen.1 (by simpa [Nat.add_comm] using hlen.2)
  · exact copies_blocked
  · exact copies_one

/-- In a value text is copied, unless the value has been put in quotes. -/
theorem copies_stepValue {delim : Delim} (h : delim ≠ .autoQuote) :
    Copies (c :: rest) (ctx.stepValue delim last c rest) := by
  unfold stepValue
  cases delim with
  | doubleQuote => exact copies_if (fun _ => copies_one) (fun _ => copies_stepValueChar)
  | singleQuote => exact copies_if (fun _ => copies_one) (fun _ => copies_stepValueChar)
  | spaceOrTagEnd =>
    exact copies_if (fun _ => copies_one)
      (fun _ => copies_if (fun _ => copies_one) (fun _ => copies_stepValueChar))
  | autoQuote => exact absurd rfl h

/-- The part of a text that consists of a class is at its start. -/
theorem take_takeWhile_length (p : Char → Bool) (t : Text) :
    t.take (t.takeWhile p).length = t.takeWhile p :=
  (List.prefix_iff_eq_take.mp (List.takeWhile_prefix p)).symm

/-- The name of a tag is copied with what opens the tag. -/
theorem copies_stepTagName (opening : Text) {element : Text → Option Html.Element}
    (h : opening ≠ []) :
    Copies (opening ++ rest) (ctx.stepTagName last opening element rest) := by
  have hlen : (rest.takeWhile (!Html.endsTagName ·)).length ≤ rest.length :=
    (List.takeWhile_sublist _).length_le
  have hpos : 0 < opening.length := List.length_pos_iff.mpr h
  have hname (next : Context) : Copies (opening ++ rest) (.consumed next
      (opening ++ rest.takeWhile (!Html.endsTagName ·))
      (opening.length + (rest.takeWhile (!Html.endsTagName ·)).length)) := by
    intro next' w' u' e
    cases e
    refine ⟨by omega, by simp; omega, ?_⟩
    rw [List.take_length_add_append, take_takeWhile_length]
  simp only [stepTagName]
  split
  · exact hname _
  · exact copies_if (fun _ => hname _) (fun _ => copies_blocked)

theorem copies_stepDeclaration :
    Copies ('<' :: '!' :: rest) (ctx.stepDeclaration last rest) := by
  unfold stepDeclaration
  dsimp only
  split
  · exact copies_copy (by omega) (by simp)
  · exact copies_copy (by omega) (by simp)
  · exact copies_if (fun _ => copies_copy (by omega) (by simp)) (fun _ => copies_blocked)
  · exact copies_if (fun _ => copies_copy (by omega) (by simp)) (fun _ => copies_blocked)
  · exact copies_copy (by omega) (by simp)
  · exact copies_if (fun _ => copies_copy (by omega) (by simp)) (fun _ => copies_blocked)
  · exact copies_if (fun _ => copies_copy (by omega) (by simp)) (fun _ => copies_blocked)
  · exact copies_copy (by omega) (by simp)

theorem copies_stepMarkup : Copies ('<' :: rest) (ctx.stepMarkup last rest) := by
  rcases rest with _ | ⟨c, more⟩
  · exact copies_if (fun _ => copies_copy (by omega) (by simp)) (fun _ => copies_blocked)
  unfold stepMarkup
  refine copies_if (fun hc => hc ▸ copies_stepDeclaration) fun _ => ?_
  refine copies_if (fun _ => copies_copy (by omega) (by simp)) fun _ => ?_
  -- an end tag, or a start tag
  refine copies_if (fun hc => ?_) fun _ => ?_
  · subst hc
    rcases more with _ | ⟨d, more⟩
    · exact copies_if (fun _ => copies_copy (by omega) (by simp)) (fun _ => copies_blocked)
    unfold stepEndTag
    refine copies_if (fun _ => copies_stepTagName ['<', '/'] (by simp)) fun _ => ?_
    exact copies_if (fun _ => copies_copy (by omega) (by simp))
      (fun _ => copies_copy (by omega) (by simp))
  · exact copies_if (fun _ => copies_stepTagName ['<'] (by simp))
      (fun _ => copies_copy (by omega) (by simp))

theorem copies_stepTag : Copies (c :: rest) (ctx.stepTag last c rest) := by
  have hlen : (rest.takeWhile (!Html.endsAttrName ·)).length ≤ rest.length :=
    (List.takeWhile_sublist _).length_le
  -- the name is taken as a whole
  have hname (next : Context) : Copies (c :: rest) (.consumed next
      (c :: rest.takeWhile (!Html.endsAttrName ·))
      (c :: rest.takeWhile (!Html.endsAttrName ·)).length) := by
    intro next' w' u' e
    cases e
    refine ⟨by simp, by simp; omega, ?_⟩
    rw [List.length_cons, List.take_succ_cons, take_takeWhile_length]
  unfold stepTag
  refine copies_if (fun _ => copies_one) fun _ => copies_if (fun _ => copies_one) fun _ => ?_
  dsimp only
  split
  · exact hname _
  · exact copies_if (fun _ => hname _) (fun _ => copies_blocked)

theorem copies_stepAfterName : Copies (c :: rest) (ctx.stepAfterName last c rest) :=
  copies_if (fun _ => copies_one) fun _ => copies_if (fun _ => copies_one) fun _ =>
    copies_if (fun _ => copies_one) fun _ => copies_stepTag

theorem copies_stepComment : Copies (c :: rest) (ctx.stepComment last c rest) := by
  unfold stepComment
  dsimp only
  split
  · exact copies_copy (by omega) (by simp_all)
  · exact copies_copy (by omega) (by simp_all)
  · exact copies_if (fun _ => copies_copy (by omega) (by simp)) (fun _ => copies_blocked)
  · exact copies_if (fun _ => copies_copy (by omega) (by simp)) (fun _ => copies_blocked)
  · exact copies_if (fun _ => copies_copy (by omega) (by simp)) (fun _ => copies_blocked)
  · exact copies_copy (by omega) (by simp)

theorem copies_stepContent : Copies (c :: rest) (ctx.stepContent last c rest) := by
  unfold stepContent
  split
  · exact copies_one
  · next element _ =>
    refine copies_if (fun hc => ?_) (fun _ => copies_one)
    obtain ⟨rfl, -⟩ := hc
    -- the end tag is the only thing that is taken as a whole
    unfold stepContentMarkup
    dsimp only
    split
    · exact copies_if (fun _ => copies_one) (fun _ => copies_blocked)
    · next d more =>
      refine copies_if (fun _ => ?_) (fun _ => copies_one)
      split
      · exact copies_if (fun _ => copies_one) (fun _ => copies_blocked)
      · next e after hdrop =>
        have hlen := congrArg List.length hdrop
        rw [List.length_drop, List.length_cons] at hlen
        exact copies_if (fun _ => copies_copy (by omega) (by simp; omega)) (fun _ => copies_one)

/-- **Nothing is lost and nothing is added**, except in values that have been put in quotes. -/
theorem copies_step (h : ctx.delim ≠ some .autoQuote) :
    Copies (c :: rest) (ctx.step last c rest) := by
  unfold step
  split
  · next delim hd => exact copies_stepValue fun e => h (e ▸ hd)
  · split
    · exact copies_if (fun hc => hc ▸ copies_stepMarkup) (fun _ => copies_one)
    · exact copies_if (fun _ => copies_stepTag) (fun _ => copies_one)
    · exact copies_stepTag
    · exact copies_if (fun _ => copies_stepAfterName) (fun _ => copies_one)
    · exact copies_stepAfterName
    · exact copies_if (fun _ => copies_one) fun _ => copies_if (fun _ => copies_one) fun _ =>
        copies_if (fun _ => copies_one) fun _ => copies_if (fun _ => copies_one) fun _ =>
        copies_stepValue (by simp)
    · exact copies_stepComment
    · exact copies_one
    all_goals exact copies_stepContent

end Context

end SafeMarkup
