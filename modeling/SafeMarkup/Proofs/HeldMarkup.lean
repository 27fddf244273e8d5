import SafeMarkup.Proofs.EndTags

/-!
# Values after held back markup

A `<` is held back together with what follows it until it is clear what markup it starts. A value
that comes then is escaped for what the text would be if it ended there (`peek_openMarkup`), but it
is joined to the text and read with it. Most values leave the markup what it was taken for. The
others are those that start with a digit where the name of a tag would start, and those that
complete the opening of a comment (`Diverts`).
-/

namespace SafeMarkup

/-- Does the text make other markup of what is held back than it was taken for? -/
inductive Diverts : (held text : Text) → Prop where
  /-- No name starts with a digit. A `<` before one is plain text, and a `</` starts markup that is
  ignored. -/
  | digit (held : Text) (hheld : held = ['<'] ∨ held = ['<', '/']) (c : Char)
      (hc : c.isDigit = true) (more : Text) (hmore : ∀ d ∈ more, d.isAlphanum = true) :
      Diverts held (c :: more)
  | dashes (more : Text) : Diverts ['<', '!'] ('-' :: '-' :: more)
  | dash (more : Text) : Diverts ['<', '!', '-'] ('-' :: more)

namespace Html

/-! ### What is written for a value -/

/-- No special element's name starts with a digit. -/
theorem ofTagName?_digit {c : Char} (hc : c.isDigit = true) (more : Text) :
    Element.ofTagName? (c :: more) = none := by
  obtain ⟨halpha, hlower⟩ := isAlpha_of_isDigit hc
  rw [Element.ofTagName?, List.find?_eq_none]
  intro element _ hname
  have hletters : (Text.lower element.tagName).all Char.isAlpha = true := by
    cases element <;> decide
  rw [← eq_of_beq hname, Text.lower, List.map_cons, hlower, List.all_cons, halpha] at hletters
  cases hletters

/-- No replacement starts with a dash. -/
theorem escapeChar_start (quoting : Quoting) {c : Char} (hc : c ≠ '-') :
    escapeChar quoting c ≠ [] ∧ (escapeChar quoting c).head? ≠ some '-' := by
  have hself : [c] ≠ [] ∧ [c].head? ≠ some '-' := ⟨by simp, by simpa using hc⟩
  unfold escapeChar replacement?
  split
  · decide
  · decide
  · decide
  · decide
  · decide
  -- the other characters are replaced only outside of quotes
  cases quoting with
  | quoted => exact hself
  | unquoted =>
    dsimp only
    split
    · decide
    · decide
    · decide
    · decide
    · decide
    · decide
    · decide
    · exact hself

/-- Escaped text starts with a dash where the text does. -/
theorem dash_prefix_escape_iff {quoting : Quoting} {soft : Bool} {t start : Text} :
    '-' :: start <+: escape quoting soft t
      ↔ ∃ rest, t = '-' :: rest ∧ start <+: escape quoting soft rest := by
  have hdash (rest : Text) :
      escape quoting soft ('-' :: rest) = '-' :: escape quoting soft rest := by
    cases quoting <;> rfl
  constructor
  · intro h
    rcases t with _ | ⟨c, rest⟩
    · exact absurd (List.prefix_nil.mp h) (List.cons_ne_nil _ _)
    by_cases hc : c = '-'
    · subst hc
      rw [hdash, List.cons_prefix_cons] at h
      exact ⟨rest, rfl, h.2⟩
    · exfalso
      -- every other character is escaped to something that starts with no dash
      by_cases hamp : c = '&'
      · subst hamp
        simp only [escape, ↓reduceIte] at h
        split at h
        · exact absurd (List.cons_prefix_cons.mp h).1 (by decide)
        · exact absurd (List.cons_prefix_cons.mp h).1 (by decide)
      · obtain ⟨hne, hhead⟩ := escapeChar_start quoting hc
        obtain ⟨d, more, hchar⟩ := List.exists_cons_of_ne_nil hne
        rw [escape, if_neg hamp, hchar, List.cons_append, List.cons_prefix_cons] at h
        rw [hchar, ← h.1] at hhead
        exact hhead rfl
  · rintro ⟨rest, rfl, h⟩
    rw [hdash, List.cons_prefix_cons]
    exact ⟨rfl, h⟩

end Html

/-! ### What makes other markup of what is held back -/

section Diverts

variable {held start text : Text} {soft : Bool}

/-- Only these starts of markup can become something else. -/
theorem Diverts.mem_held (h : Diverts held text) :
    held ∈ [['<'], ['<', '/'], ['<', '!'], ['<', '!', '-']] := by
  cases h with
  | digit _ hheld => rcases hheld with rfl | rfl <;> simp
  | dashes | dash => simp

/-- After `<` and `</` a value diverts if it is letters and digits, of which the first is a digit.
-/
theorem diverts_name_iff (hheld : held = ['<'] ∨ held = ['<', '/']) :
    Diverts held text ↔ ∃ c more, text = c :: more ∧ c.isDigit = true
      ∧ ∀ d ∈ more, d.isAlphanum = true := by
  constructor
  · intro h
    cases h with
    | digit _ _ c hc more hmore => exact ⟨c, more, rfl, hc, hmore⟩
    | dashes | dash => simp at hheld
  · rintro ⟨c, more, rfl, hc, hmore⟩
    exact .digit _ hheld c hc more hmore

/-- After `<!` it takes two dashes to open a comment. -/
theorem diverts_dashes_iff : Diverts ['<', '!'] text ↔ ['-', '-'] <+: text := by
  constructor
  · intro h
    cases h with
    | digit _ hheld => simp at hheld
    | dashes more => exact ⟨more, rfl⟩
  · rintro ⟨more, rfl⟩
    exact .dashes more

/-- After `<!-` it takes one more dash to open a comment. -/
theorem diverts_dash_iff : Diverts ['<', '!', '-'] text ↔ ['-'] <+: text := by
  constructor
  · intro h
    cases h with
    | digit _ hheld => simp at hheld
    | dash more => exact ⟨more, rfl⟩
  · rintro ⟨more, rfl⟩
    exact .dash more

/-- The filter lets a name pass that starts with a digit. -/
theorem diverts_filterTagName_iff (hheld : held = ['<'] ∨ held = ['<', '/']) :
    Diverts held (Html.filterTagName [] text) ↔ Diverts held text := by
  rw [diverts_name_iff hheld, diverts_name_iff hheld]
  rcases Html.filterTagName_eq [] text with heq | heq
  · rw [heq]
  constructor
  · -- a name that was replaced does not start with a digit
    rintro ⟨c, more, htext, hc, -⟩
    rw [heq] at htext
    cases htext
    cases hc
  · rintro ⟨c, more, rfl, hc, hmore⟩
    refine ⟨c, more, ?_, hc, hmore⟩
    have hall : (c :: more).all Char.isAlphanum = true := by
      rw [List.all_cons, Bool.and_eq_true, List.all_eq_true]
      exact ⟨Html.CharRef.isAlphanum_of_isDigit hc, hmore⟩
    rw [Html.filterTagName, List.nil_append, Html.ofTagName?_digit hc, hall]
    rfl

/-- Escaping neither adds nor hides the two dashes. -/
theorem diverts_escape_dashes_iff :
    Diverts ['<', '!'] (Html.escape .quoted soft text) ↔ Diverts ['<', '!'] text := by
  rw [diverts_dashes_iff, diverts_dashes_iff, Html.dash_prefix_escape_iff]
  constructor
  · rintro ⟨rest, rfl, hrest⟩
    obtain ⟨more, rfl, -⟩ := Html.dash_prefix_escape_iff.mp hrest
    exact ⟨more, rfl⟩
  · rintro ⟨more, rfl⟩
    exact ⟨'-' :: more, rfl, Html.dash_prefix_escape_iff.mpr ⟨more, rfl, List.nil_prefix⟩⟩

theorem diverts_escape_dash_iff :
    Diverts ['<', '!', '-'] (Html.escape .quoted soft text) ↔ Diverts ['<', '!', '-'] text := by
  rw [diverts_dash_iff, diverts_dash_iff, Html.dash_prefix_escape_iff]
  constructor
  · rintro ⟨rest, rfl, -⟩
    exact ⟨rest, rfl⟩
  · rintro ⟨rest, rfl⟩
    exact ⟨rest, rfl, List.nil_prefix⟩

end Diverts

namespace Context

variable {rest t : Text} {c : Char}

/-! ### Markup that nothing follows -/

/-- No name starts with a digit, so a `<` before one stands for itself. -/
theorem step_digit {last : Bool} (hc : c.isDigit = true) :
    step {} last '<' (c :: rest) = .consumed {} ['<'] 1 := by
  have hne {d : Char} (hd : d.isDigit = false) : c ≠ d := ne_of_class hc hd
  simp [step, stepText, stepMarkup, Step.copy, (isAlpha_of_isDigit hc).1,
    hne (d := '!') (by decide), hne (d := '?') (by decide), hne (d := '/') (by decide)]

theorem step_endTag_digit {last : Bool} (hc : c.isDigit = true) :
    step {} last '<' ('/' :: c :: rest) = .consumed { state := .bogusComment } ['<', '/'] 2 := by
  have hclose : c ≠ '>' := ne_of_class hc (by decide)
  simp [step, stepText, stepMarkup, stepEndTag, Step.copy, (isAlpha_of_isDigit hc).1, hclose]

/-- No tag starts with a digit: it is text. -/
theorem peek_digit (hc : c.isDigit = true) (ht : '<' ∉ t) : peek {} ('<' :: c :: t) = {} := by
  rw [peek, advance_consumed (step_digit hc), after_context, List.drop_zero]
  refine peek_text rfl rfl ?_
  rw [List.mem_cons, not_or]
  exact ⟨(ne_of_class hc (by decide)).symm, ht⟩

/-- A digit after `</` makes a bogus comment, which goes on without a `>`. -/
theorem peek_endTag_digit (hc : c.isDigit = true) (ht : '>' ∉ t) :
    peek {} ('<' :: '/' :: c :: t) = { state := .bogusComment } := by
  have hclose : c ≠ '>' := ne_of_class hc (by decide)
  rw [peek, advance_consumed (step_endTag_digit hc), after_context]
  refine peek_comment rfl (.inr rfl) ?_
  simpa using ⟨hclose.symm, ht⟩

theorem step_declaration {last : Bool} :
    step {} last '<' ('!' :: t) = stepDeclaration {} last t := rfl

/-- Two dashes open a comment, unless it may be over at once. -/
theorem step_opening {last : Bool} (ht : '>' ∉ t)
    (hgoes : last = true ∨ ¬ (t = [] ∨ t = ['-'])) :
    step {} last '<' ('!' :: '-' :: '-' :: t)
      = .consumed { state := .comment } ['<', '!', '-', '-'] 4 := by
  rw [step_declaration]
  unfold stepDeclaration
  split <;> simp_all [Step.copy]

/-- Two dashes make a comment of a declaration. -/
theorem peek_declaration (ht : '>' ∉ t) :
    peek {} ('<' :: '!' :: t)
      = { state := if ['-', '-'] <+: t then .comment else .bogusComment } := by
  by_cases hdashes : ['-', '-'] <+: t
  · rw [if_pos hdashes]
    obtain ⟨more, heq⟩ := hdashes
    change '-' :: '-' :: more = t at heq
    subst heq
    have hmore : '>' ∉ more := by simpa using ht
    -- the comment is not over at once, for want of a `>`
    rw [peek, advance_consumed (step_opening hmore (.inl rfl)), after_context]
    exact peek_comment rfl (.inl rfl) hmore
  · rw [if_neg hdashes]
    have hstep : stepDeclaration {} true t
        = .consumed { state := .bogusComment } ['<', '!'] 2 := by
      unfold stepDeclaration
      split <;> simp_all [Step.copy]
    rw [peek, advance_consumed (step_declaration.trans hstep), after_context]
    exact peek_comment rfl (.inr rfl) ht

/-! ### Names and declarations that go on -/

/-- A name after `<` or `</` starts a tag, unless it starts with a digit. -/
theorem peek_name_append (hne : t ≠ []) (ht : ∀ d ∈ t, d.isAlphanum = true) :
    (¬ Diverts ['<'] t → peek {} ('<' :: t) = { state := .tagName })
      ∧ (Diverts ['<'] t → peek {} ('<' :: t) = {})
      ∧ (¬ Diverts ['<', '/'] t → peek {} ('<' :: '/' :: t) = { state := .tagName })
      ∧ (Diverts ['<', '/'] t → peek {} ('<' :: '/' :: t) = { state := .bogusComment }) := by
  rw [diverts_name_iff (.inl rfl), diverts_name_iff (.inr rfl)]
  obtain ⟨c, more, rfl⟩ := List.exists_cons_of_ne_nil hne
  obtain ⟨hc, hmore⟩ := List.forall_mem_cons.mp ht
  have hnone {d : Char} (hd : d.isAlphanum = false) : d ∉ more :=
    fun hmem => by rw [hmore d hmem] at hd; cases hd
  -- a digit is the one alphanumeric character that starts no name
  by_cases hdigit : c.isDigit = true
  · have hdiverts : ∃ d rest, c :: more = d :: rest ∧ d.isDigit = true
        ∧ ∀ e ∈ rest, e.isAlphanum = true := ⟨c, more, rfl, hdigit, hmore⟩
    exact ⟨fun hnot => absurd hdiverts hnot, fun _ => peek_digit hdigit (hnone (by decide)),
      fun hnot => absurd hdiverts hnot, fun _ => peek_endTag_digit hdigit (hnone (by decide))⟩
  · have halpha : c.isAlpha = true := by simpa [Char.isAlphanum, hdigit] using hc
    have hname : ∀ d ∈ c :: more, Html.endsTagName d = false :=
      fun d hd => Html.endsTagName_of_isAlphanum (ht d hd)
    have hkept : ¬ ∃ d rest, c :: more = d :: rest ∧ d.isDigit = true
        ∧ ∀ e ∈ rest, e.isAlphanum = true := by
      rintro ⟨d, rest, heq, hd, -⟩
      cases heq
      exact hdigit hd
    exact ⟨fun _ => peek_startTag halpha hname, fun h => absurd h hkept,
      fun _ => peek_endTag halpha hname, fun h => absurd h hkept⟩

/-- The text after `'<' :: rest` makes other markup of it if and only if it diverts it. -/
structure KeptUnlessDiverted (rest t : Text) : Prop where
  kept : ¬ Diverts ('<' :: rest) t → peek {} ('<' :: (rest ++ t)) = peek {} ('<' :: rest)
  diverted : Diverts ('<' :: rest) t →
    (peek {} ('<' :: (rest ++ t))).state ≠ (peek {} ('<' :: rest)).state

theorem KeptUnlessDiverted.of_eq
    (hnot : ('<' :: rest) ∉ [['<'], ['<', '/'], ['<', '!'], ['<', '!', '-']])
    (heq : peek {} ('<' :: (rest ++ t)) = peek {} ('<' :: rest)) : KeptUnlessDiverted rest t :=
  ⟨fun _ => heq, fun h => absurd h.mem_held hnot⟩

/-- The openings of comments, complete or not. -/
theorem keptUnlessDiverted_declaration (ht : '>' ∉ t) :
    KeptUnlessDiverted ['!'] t ∧ KeptUnlessDiverted ['!', '-'] t
      ∧ KeptUnlessDiverted ['!', '-', '-'] t ∧ KeptUnlessDiverted ['!', '-', '-', '-'] t := by
  have hdashes (more : Text) (hmore : '>' ∉ more) :
      peek {} ('<' :: '!' :: '-' :: '-' :: more) = { state := .comment } := by
    rw [peek_declaration (by simpa using hmore), if_pos ⟨more, rfl⟩]
  -- after two dashes no value can divert the comment
  refine ⟨⟨fun h => ?_, fun h => ?_⟩, ⟨fun h => ?_, fun h => ?_⟩, .of_eq (by decide) ?_,
    .of_eq (by decide) ?_⟩
  · rw [diverts_dashes_iff] at h
    rw [List.singleton_append, peek_declaration ht, if_neg h]
    rfl
  · obtain ⟨more, rfl⟩ := diverts_dashes_iff.mp h
    rw [List.singleton_append, List.cons_append, List.cons_append, List.nil_append,
      hdashes more (by simpa using ht)]
    decide
  · rw [diverts_dash_iff] at h
    have hnot : ¬ ['-', '-'] <+: '-' :: t := by simpa [List.cons_prefix_cons] using h
    rw [List.cons_append, List.singleton_append, peek_declaration (by simpa using ht), if_neg hnot]
    rfl
  · obtain ⟨more, rfl⟩ := diverts_dash_iff.mp h
    rw [List.cons_append, List.singleton_append, List.singleton_append,
      hdashes more (by simpa using ht)]
    decide
  · exact hdashes t ht
  · exact hdashes ('-' :: t) (by simpa using ht)

/-- **When held back markup stays what it was taken for.** A name goes on with letters and digits,
other markup without its end. -/
theorem keptUnlessDiverted (h : OpenMarkup rest) (ht : '>' ∉ t)
    (hname : (peek {} ('<' :: rest)).state = .tagName → t ≠ [] ∧ ∀ d ∈ t, d.isAlphanum = true) :
    KeptUnlessDiverted rest t := by
  -- the name goes on without a character that would end it
  have name {name : Text} (hrest : ∀ d ∈ name, Html.endsTagName d = false)
      (hall : ∀ d ∈ t, d.isAlphanum = true) : ∀ d ∈ name ++ t, Html.endsTagName d = false := by
    intro d hd
    rcases List.mem_append.mp hd with hd | hd
    · exact hrest d hd
    · exact Html.endsTagName_of_isAlphanum (hall d hd)
  cases h with
  | opening _ hrest =>
    obtain ⟨hbang, hdash, hcomment, hcomment'⟩ := keptUnlessDiverted_declaration ht
    simp only [List.mem_cons, List.not_mem_nil, or_false] at hrest
    -- the six openings: `<`, `</`, `<!` and a comment with up to three dashes
    rcases hrest with rfl | rfl | rfl | rfl | rfl | rfl
    · obtain ⟨hne, hall⟩ := hname rfl
      obtain ⟨hkept, hdiverted, -⟩ := peek_name_append hne hall
      exact ⟨hkept, fun h => by rw [List.nil_append, hdiverted h]; decide⟩
    · obtain ⟨hne, hall⟩ := hname rfl
      obtain ⟨-, -, hkept, hdiverted⟩ := peek_name_append hne hall
      exact ⟨hkept, fun h => by rw [List.singleton_append, hdiverted h]; decide⟩
    · exact hbang
    · exact hdash
    · exact hcomment
    · exact hcomment'
  | tagName c start hc hrest =>
    have hpeek := peek_startTag hc hrest
    refine .of_eq ?_ ?_
    · have hslash : c ≠ '/' := ne_of_class hc (by decide)
      have hbang : c ≠ '!' := ne_of_class hc (by decide)
      simp [hslash, hbang]
    · rw [hpeek]
      exact peek_startTag hc (name hrest (hname (by rw [hpeek])).2)
  | endTagName c start hc hrest =>
    have hpeek := peek_endTag hc hrest
    refine .of_eq (by simp) ?_
    rw [hpeek]
    exact peek_endTag hc (name hrest (hname (by rw [hpeek])).2)

end Context

namespace Writer

variable {w : Writer}

/-- In a tag name a value is cut down to what a name may hold. -/
theorem escapeValue_tagName (h : w.context = { state := .tagName }) (value : Value) :
    w.escapeValue value
      = Html.filterTagName (Html.trailingName w.held.text) (w.serializer.display value) := by
  simp [escapeValue, nameStart, valueText, h, Escaper.ofContext, Directive.ofContext,
    Directive.apply, Directive.quoting, Directive.escapeInAttr, Context.hasPartialEscape,
    Escaper.escape]

/-- In text and in comments a value is escaped as text is. -/
theorem escapeValue_markup {state : State} (h : w.context = { state })
    (hs : state = .text ∨ state = .comment ∨ state = .bogusComment) (value : Value) :
    w.escapeValue value = Html.escape .quoted w.soft (w.serializer.display value) := by
  rcases hs with rfl | rfl | rfl <;>
    simp [escapeValue, valueText, h, Escaper.ofContext, Directive.ofContext, Directive.apply,
      Directive.quoting, Directive.escapeInAttr, Context.hasPartialEscape, Escaper.escape]

theorem escapeValue_comment {state : State} (h : w.context = { state })
    (hs : state = .comment ∨ state = .bogusComment) (value : Value) :
    w.escapeValue value = Html.escape .quoted w.soft (w.serializer.display value) :=
  escapeValue_markup h (.inr hs) value

/-- In text, what is held back is the start of markup. -/
theorem Valid.of_text (h : Valid w) (hs : w.decided.state = .text) (hheld : w.held.text ≠ []) :
    w.decided = {} ∧ w.ready = w ∧ ∃ rest, w.held.text = '<' :: rest ∧ OpenMarkup rest := by
  have hdecided : w.decided = {} := by rw [h.wellFormed.of_text (by rw [hs]; rfl), hs]
  refine ⟨hdecided, h.ready_eq_self (by rw [hdecided]) (by simp [hs]), ?_⟩
  have hu := h.held.resolve_left hheld
  generalize w.held.text = held at hu
  cases hu with
  | markup rest _ _ hrest => exact ⟨rest, rfl, hrest⟩
  | name _ _ _ hs' => rw [hs] at hs'; cases hs'
  | reference _ hd => rw [hdecided] at hd; cases hd
  | commentEnd _ _ hs' => rw [hs] at hs'; cases hs'
  | contentEnd _ _ _ hs' => rw [hs] at hs'; cases hs'

/-- Escaping does not matter for what a value makes of held back markup. -/
theorem diverts_escapeValue_iff {rest : Text} (hheld : w.held.text = '<' :: rest)
    (hcontext : w.context = Context.peek {} ('<' :: rest)) (value : Value) :
    Diverts w.held.text (w.escapeValue value)
      ↔ Diverts w.held.text (w.serializer.display value) := by
  by_cases hmem : w.held.text ∈ [['<'], ['<', '/'], ['<', '!'], ['<', '!', '-']]
  · rw [← hheld] at hcontext
    simp only [List.mem_cons, List.not_mem_nil, or_false] at hmem
    -- two of the four are names, and the other two bogus comments
    rcases hmem with h | h | h | h
    · rw [h] at hcontext
      rw [escapeValue_tagName hcontext, h]
      exact diverts_filterTagName_iff (.inl rfl)
    · rw [h] at hcontext
      rw [escapeValue_tagName hcontext, h]
      exact diverts_filterTagName_iff (.inr rfl)
    · rw [h] at hcontext
      rw [escapeValue_comment hcontext (.inr rfl), h]
      exact diverts_escape_dashes_iff
    · rw [h] at hcontext
      rw [escapeValue_comment hcontext (.inr rfl), h]
      exact diverts_escape_dash_iff
  · exact ⟨fun h => absurd h.mem_held hmem, fun h => absurd h.mem_held hmem⟩

/-- **When a value leaves held back markup what it was taken for**: unless it starts with a digit
where a name would start, or completes the opening of a comment. A value that there is no memory for
changes nothing. -/
theorem markup_kept_unless_diverted (hw : Reachable w) (hopen : w.closed = false)
    (hs : w.decided.state = .text) (hheld : w.held.text ≠ []) (value : Value) :
    let written := w.writeValue value
    let next := written.writer
    let text := w.serializer.display value
    (w.context.state = .tagName ∨ w.context.state = .comment ∨ w.context.state = .bogusComment)
      ∧ ((∃ e, written.error = some (.heldTextLimit e)) → next.context = w.context)
      ∧ ((∀ e, written.error ≠ some (.heldTextLimit e)) →
        (¬ Diverts w.held.text text → next.context = w.context)
          ∧ (Diverts w.held.text text → next.context.state ≠ w.context.state)) := by
  obtain ⟨hdecided, hready, rest, hrest, hmarkup⟩ := hw.valid.of_text hs hheld
  obtain ⟨state, hstate, hpeek⟩ := Context.peek_openMarkup hmarkup
  have hcontext : w.context = Context.peek {} ('<' :: rest) := by rw [context, hdecided, hrest]
  have hcall : w.writeValue value = w.advance (w.escapeValue value) := by
    rw [writeValue_eq hopen, hready]
  dsimp only
  rw [hcall]
  refine ⟨by rw [hcontext, hpeek]; exact hstate, ?_, fun hlimit => ?_⟩
  · rintro ⟨e, he⟩
    obtain ⟨hdecided', hheld'⟩ := kept_of_refused hheld he
    rw [context, hdecided', hheld', ← context]
  -- the escaped value has no `>`, and in a name only letters and digits
  have hkept : Context.KeptUnlessDiverted rest (w.escapeValue value) := by
    refine Context.keptUnlessDiverted hmarkup ?_ fun htag => ?_
    · rcases hstate with rfl | hcomment
      · rw [escapeValue_tagName (hcontext.trans hpeek)]
        exact fun hmem => absurd (Html.isAlphanum_of_mem_filterTagName hmem) (by decide)
      · rw [escapeValue_comment (hcontext.trans hpeek) hcomment]
        exact Html.notMem_escape (by decide)
    · rw [hpeek] at htag
      cases htag
      rw [escapeValue_tagName (hcontext.trans hpeek)]
      exact ⟨Html.filterTagName_ne_nil _ _, fun _ => Html.isAlphanum_of_mem_filterTagName⟩
  -- whether a value diverts can be told before it is escaped
  rw [← diverts_escapeValue_iff hrest hcontext, context_advance hlimit, hdecided, hcontext, hrest]
  exact ⟨hkept.kept, hkept.diverted⟩

/-- A digit after a `<`, which would otherwise start a tag. -/
theorem digit_starts_no_tag :
    let w := startingWith "<".toList
    let value := Value.str "1".toList
    w.closed = false ∧ w.decided.state = .text ∧ w.held.text = "<".toList
      ∧ w.context.state = .tagName ∧ Diverts w.held.text (w.serializer.display value)
      ∧ (w.writeValue value).error = none
      ∧ (w.writeValue value).writer.context.state ≠ w.context.state := by
  intro w value
  have hopen : w.closed = false := by decide +kernel
  have hs : w.decided.state = .text := by decide +kernel
  have hheld : w.held.text = "<".toList := by decide +kernel
  have hsent : (w.writeValue value).error = none := by decide +kernel
  have hdiverts : Diverts w.held.text (w.serializer.display value) := by
    rw [hheld]
    exact .digit _ (.inl rfl) '1' (by decide) [] (by simp)
  obtain ⟨-, -, hwritten⟩ := markup_kept_unless_diverted
    (reachable_startingWith "<".toList) hopen hs (by rw [hheld]; decide) value
  obtain ⟨-, hdiverted⟩ := hwritten fun e he => Option.some_ne_none _ (he.symm.trans hsent)
  exact ⟨hopen, hs, hheld, by decide +kernel, hdiverts, hsent, hdiverted hdiverts⟩

/-- **A value can open a comment**, which goes on where the markup that it is written in would have
been over. -/
theorem dashes_open_comment :
    let w := startingWith "<!".toList
    let written := w.writeValue (.str "--x".toList)
    Reachable w ∧ w.closed = false ∧ w.decided.state = .text ∧ w.held.text ≠ []
      ∧ written.error = none ∧ w.context.state = .bogusComment
      ∧ written.writer.context.state = .comment :=
  ⟨reachable_startingWith "<!".toList, by decide +kernel, by decide +kernel, by decide +kernel,
    by decide +kernel, by decide +kernel, by decide +kernel⟩

end Writer

end SafeMarkup
