import SafeMarkup.Proofs.ReachableContext

/-!
# What the fields of a context say of each other

A context is a record of ten fields, most of which matter in some places only. `Coherent` says for
every field where it may differ from its default, and which states go with which element, attribute
and delimiter. A field that has been left behind by an earlier place would make the next value be
escaped for that place. The grammar of contexts rules this out: every reachable context is coherent
(`coherent_of_reachable`).
-/

namespace SafeMarkup

/-- The number of letters that a word takes up. A word that is too long to be remembered takes up
one more than there is room for. -/
def Js.Word.size : Js.Word → Nat
  | .short letters => letters.length
  | .long => keywordBound + 1

/-- The number of letters of `url` that a word has matched, or one more if it is another word. -/
def Css.UrlWord.matched : Css.UrlWord → Nat
  | .none => 0
  | .u => 1
  | .ur => 2
  | .url => 3
  | .other => 4

theorem Js.Word.size_le {word : Js.Word} (h : word.IsBounded) : word.size ≤ 11 := by
  cases word with
  | short letters => exact Nat.le_trans h (by decide)
  | long => decide

theorem Css.UrlWord.matched_le (word : Css.UrlWord) : word.matched ≤ 4 := by
  cases word <;> decide

/-- Is this a state in the value of an attribute of that kind? -/
def Html.AttrKind.Admits : Html.AttrKind → State → Prop
  | .plain, state => state = .plainValue
  | .url, state => state = .url
  | .js, state => state.isJs = true
  | .css, state => state.isCss = true

namespace Context

/-- Each field has its default where it does not matter, and the fields fit together. -/
structure Coherent (ctx : Context) : Prop where
  /-- A value belongs to an attribute and is read as the kind of the attribute asks for. -/
  value : ∀ delim, ctx.delim = some delim →
    ∃ kind, ctx.attr = some kind ∧ kind.Admits ctx.state
  valueOnly : ctx.state = .plainValue ∨ ctx.state = .url → ctx.delim ≠ none
  script : ctx.delim = none → ctx.state.isJs = true → ctx.element = some .script
  style : ctx.delim = none → ctx.state.isCss = true → ctx.element = some .style
  rcdata : ctx.delim = none → ctx.state = .rcdata →
    ∃ element, ctx.element = some element ∧ element ≠ .script ∧ element ≠ .style
  text : ctx.state = .text → ctx = {}
  markup : ctx.state = .tagName ∨ ctx.state = .comment ∨ ctx.state = .bogusComment →
    ctx = { state := ctx.state }
  tag : ctx.state = .tag → ctx = { state := .tag, element := ctx.element }
  name : ctx.state = .attrName ∨ ctx.state = .afterName ∨ ctx.state = .beforeValue →
    ∃ kind, ctx = { state := ctx.state, element := ctx.element, attr := some kind }
  escaping : ctx.flags.escaping = true → ctx.state.allowsEscapes = true
  inClass : ctx.flags.inClass = true → ctx.state = .js .regexp
  afterStar : ctx.flags.afterStar = true →
    ctx.state = .js .blockComment ∨ ctx.state = .css .blockComment
  word : ctx.word.size ≤ 11
  urlWord : ctx.urlWord.matched ≤ 4

variable {ctx : Context}

/-! ### Values and contents -/

/-- A value is read as the kind of its attribute asks for. -/
theorem WellFormed.admits {delim : Delim} (h : ctx.WellFormed) (hd : ctx.delim = some delim) :
    ∃ kind, ctx.attr = some kind ∧ kind.Admits ctx.state := by
  obtain ⟨⟨kind, ha⟩, hentry, -⟩ := h.of_delim hd
  refine ⟨kind, ha, ?_⟩
  -- the state belongs to the language that the value started in
  rw [attrValue, ha] at hentry
  cases kind <;> cases hs : ctx.state <;> simp_all [State.entry, Html.AttrKind.Admits, State.isJs,
    State.isCss]

/-- Plain values and URLs stand in attributes only. -/
theorem WellFormed.delim_ne_none (h : ctx.WellFormed)
    (hs : ctx.state = .plainValue ∨ ctx.state = .url) : ctx.delim ≠ none := by
  intro hd
  have hcontent : ctx.state.isContent = true := by rcases hs with hs | hs <;> rw [hs] <;> rfl
  obtain ⟨element, -, hentry⟩ := h.of_content hd hcontent
  rcases hs with hs | hs <;> rw [hs] at hentry <;> cases element <;> cases hentry

/-- Outside of attributes there is JS in scripts only. -/
theorem WellFormed.element_of_js (h : ctx.WellFormed) (hd : ctx.delim = none)
    (hs : ctx.state.isJs = true) : ctx.element = some .script := by
  cases hstate : ctx.state with
  | js mode =>
    obtain ⟨element, he, hentry⟩ := h.of_content hd (by rw [hstate]; rfl)
    rw [hstate] at hentry
    cases element <;> first | exact he | cases hentry
  | _ => rw [hstate] at hs; cases hs

/-- Outside of attributes there is CSS in style elements only. -/
theorem WellFormed.element_of_css (h : ctx.WellFormed) (hd : ctx.delim = none)
    (hs : ctx.state.isCss = true) : ctx.element = some .style := by
  cases hstate : ctx.state with
  | css mode =>
    obtain ⟨element, he, hentry⟩ := h.of_content hd (by rw [hstate]; rfl)
    rw [hstate] at hentry
    cases element <;> first | exact he | cases hentry
  | _ => rw [hstate] at hs; cases hs

/-- Content without code is the content of some other element. -/
theorem WellFormed.element_of_rcdata (h : ctx.WellFormed) (hd : ctx.delim = none)
    (hs : ctx.state = .rcdata) :
    ∃ element, ctx.element = some element ∧ element ≠ .script ∧ element ≠ .style := by
  obtain ⟨element, he, hentry⟩ := h.of_content hd (by rw [hs]; rfl)
  rw [hs] at hentry
  refine ⟨element, he, ?_, ?_⟩ <;> rintro rfl <;> cases hentry

/-! ### All fields together -/

/-- **Reachable contexts are coherent.** Whatever texts have been followed, and wherever they were
cut or completed, no field says anything of a place that the cursor has left. -/
theorem coherent_of_reachable (h : ctx.Reachable) : ctx.Coherent := by
  have hw := h.wellFormed
  have hr := hw.remembers
  constructor
  case value => exact fun delim hd => hw.admits hd
  case valueOnly => exact hw.delim_ne_none
  case script => exact hw.element_of_js
  case style => exact hw.element_of_css
  case rcdata => exact hw.element_of_rcdata
  case text =>
    intro hs
    rw [hw.of_text (by rw [hs]; rfl), hs]
  case markup =>
    intro hs
    exact hw.of_text (by rcases hs with hs | hs | hs <;> rw [hs] <;> rfl)
  case tag => exact hw.of_tag
  case name =>
    intro hs
    exact hw.of_attr (by rcases hs with hs | hs | hs <;> rw [hs] <;> rfl)
  case escaping => exact hr.escaping
  case inClass => exact hr.inClass
  case afterStar => exact hr.afterStar
  case word => exact Js.Word.size_le hr.word
  case urlWord => exact Css.UrlWord.matched_le ctx.urlWord

/-- A name and a reference that are cut, and a regular expression after them. -/
theorem coherent_after_cuts :
    let value := ((advance {} true "<a onclick".toList).context.advance false "=&#4".toList).context
    let ctx := ((value.terminateCharRef "&#47".toList).1.advance false "[\\".toList).context
    ctx.Reachable ∧ ctx.state = .js .regexp ∧ ctx.flags = { escaping := true, inClass := true }
      ∧ ctx.Coherent := by
  have h : Reachable (((((advance {} true "<a onclick".toList).context.advance false
      "=&#4".toList).context.terminateCharRef "&#47".toList).1.advance false
      "[\\".toList).context) :=
    .advance _ (.terminateCharRef _ (.advance _ (.advance _ .start true _) false _) _) false _
  exact ⟨h, by decide +kernel, by decide +kernel, coherent_of_reachable h⟩

end Context

end SafeMarkup
