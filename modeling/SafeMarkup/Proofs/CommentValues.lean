import Mathlib.Tactic.WLOG
import SafeMarkup.Proofs.CommentEnd
import SafeMarkup.Proofs.CodeValue

/-!
# Values in comments

A value does not end the comment that it is written in, but its last characters can be the start of
the comment's end, which the text after it completes. They are all that this text can tell of the
value (`Writer.leftOpen`). Where a value leads to is a matter of few places in a comment in markup
(`comment_writeValue`). In a block comment it is a matter of whether there is a star at the end, and
of the end tag of the script (`blockComment_writeValue`). Nothing is written after a value to keep
the text from completing what the value has started, unlike before a value that comes after a
reference in the value of an attribute.
-/

namespace SafeMarkup

namespace Context

variable {ctx : Context}

theorem InContent.withStar {element : Html.Element} (h : ctx.InContent element) (star : Bool) :
    (ctx.withStar star).InContent element :=
  ⟨h.delim, h.element, h.state⟩

/-- A `/` tells whether there is a star before it, for only then it ends the comment. -/
theorem eq_of_peek_slash_eq {a b : Bool} (hs : ctx.state = .js .blockComment)
    (h : (ctx.withStar a).peek ['/'] = (ctx.withStar b).peek ['/']) : a = b := by
  have hslash (star : Bool) : ((ctx.withStar star).peek ['/']).state
      = if star then .js .code else .js .blockComment := by
    have hcode : (ctx.withStar star).InCode := .inr (.inl (by rw [withStar_state, hs]; rfl))
    rw [peek, hcode.advance_slash]
    cases star <;> simp [feed, hs, feedJs, feedBlockComment]
  have hstate := congrArg Context.state h
  rw [hslash, hslash] at hstate
  cases a <;> cases b <;> first | rfl | cases hstate

end Context

namespace Writer

/-- Was there memory for what has to be held back? -/
def Outcome.HadMemory (outcome : Outcome) : Prop := ∀ e, outcome.error ≠ some (.heldTextLimit e)

theorem Outcome.hadMemory_of_error_eq_none {outcome : Outcome} (h : outcome.error = none) :
    outcome.HadMemory :=
  fun _ he => Option.some_ne_none _ (he.symm.trans h)

variable {w next next' : Writer} {value value' : Value}

/-- The context that further trusted text leads to. -/
def ahead (w : Writer) (text : Text) : Context := w.decided.peek (w.held.text ++ text)

theorem context_writeTrusted (hopen : w.closed = false) {text : Text}
    (hmemory : (w.writeTrusted text).HadMemory) :
    (w.writeTrusted text).writer.context = w.ahead text := by
  rw [writeTrusted_eq hopen] at hmemory ⊢
  exact context_advance hmemory

/-- What a text in a block comment leaves open of the comment's end. -/
def starText (star : Bool) : Text := if star then ['*'] else []

theorem eq_of_starText_eq {a b : Bool} (h : starText a = starText b) : a = b := by
  cases a <;> cases b <;> first | rfl | cases h

/-- The start of an end tag is no star. -/
theorem starText_ne_lower {star : Bool} {text : Text}
    (h : Html.Element.script.StartsEndTag text) : starText star ≠ Text.lower text := by
  obtain ⟨rest, rfl, -⟩ := h.exists_lt
  cases star <;> simp [starText, Text.lower]

/-- What a value in a comment leaves open: the start of the comment's end, or of the end tag of the
script that the comment is in, that the text ends with. -/
def leftOpen (w : Writer) (value : Value) : Text :=
  if w.context.state = .comment then
    w.decided.commentHeld (w.held.text ++ w.escapeValue value)
  else if w.context.delim = none
      ∧ Html.Element.script.StartsEndTag (w.held.text ++ w.readText value) then
    Text.lower (w.held.text ++ w.readText value)
  else starText (w.context.endsInStar (w.readText value))

/-- Does the value complete the end tag of the script that it is written in? -/
def EndsScript (w : Writer) (value : Value) : Prop :=
  w.context.InContent .script
    ∧ Html.Element.script.Closes (w.held.text ++ w.escapeValue value)

/-! ### Comments in markup -/

/-- Only the opening of a comment leads to a comment. -/
theorem Valid.decided_of_comment (h : Valid w) (hs : w.context = { state := .comment })
    (htext : w.decided.state ≠ .text) : w.decided = { state := .comment } := by
  have hd : w.decided.delim = none := by rw [← h.delim_eq, hs]
  -- content is never read as a comment of the page
  have hcontent (t : Text) (hs' : w.decided.state.isContent = true) :
      w.decided.feedAll t ≠ { state := .comment } := by
    intro heq
    have hfed := (Context.samePlace_feedAll w.decided t).isContent.trans hs'
    rw [heq] at hfed
    cases hfed
  rcases h.peeks with heq | hpeeks
  · exact heq.symm.trans hs
  rw [hs] at hpeeks
  generalize hnext : ({ state := .comment } : Context) = next at hpeeks
  -- of what can be held back, only the end of a comment is taken for a comment
  cases hpeeks with
  | markup _ hs' => exact absurd hs' htext
  | name => cases hnext
  | comment => rfl
  | value hd' => rw [hd] at hd'; cases hd'
  | content _ hs' t => exact absurd hnext.symm (hcontent t hs')

/-- Of a comment that has been opened the end can be held back. -/
theorem Valid.held_of_comment (h : Valid w) (hdecided : w.decided = { state := .comment }) :
    '>' ∉ w.held.text := by
  rcases h.held with hnone | hu
  · rw [hnone]
    exact List.not_mem_nil
  generalize w.held.text = held at hu
  rw [hdecided] at hu
  cases hu with
  | markup _ _ hs => cases hs
  | name _ _ _ hs => cases hs
  | reference _ hd => cases hd
  | contentEnd _ _ _ hs => cases hs
  | commentEnd _ _ _ hmem =>
    simp only [List.mem_cons, List.not_mem_nil, or_false] at hmem
    rcases hmem with rfl | rfl | rfl <;> decide

/-- Before that it is the opening that is held back. -/
theorem Valid.held_of_opening (h : Valid w) (hs : w.context = { state := .comment })
    (htext : w.decided.state = .text) :
    w.decided = {} ∧ ∃ more, w.held.text = '<' :: '!' :: '-' :: '-' :: more ∧ '>' ∉ more := by
  have hheld : w.held.text ≠ [] := by
    intro hnone
    rw [context_eq_decided hnone] at hs
    rw [hs] at htext
    cases htext
  obtain ⟨hdecided, -, rest, hrest, hmarkup⟩ := h.of_text htext hheld
  have hpeek : Context.peek {} ('<' :: rest) = { state := .comment } := by
    rw [← hs, context, hdecided, hrest]
  refine ⟨hdecided, ?_⟩
  rw [hrest]
  -- of all markup that can be held back only these two openings are taken for a comment
  cases hmarkup with
  | opening _ hmem =>
    simp only [List.mem_cons, List.not_mem_nil, or_false] at hmem
    rcases hmem with rfl | rfl | rfl | rfl | rfl | rfl
    · exact absurd hpeek (by decide)
    · exact absurd hpeek (by decide)
    · exact absurd hpeek (by decide)
    · exact absurd hpeek (by decide)
    · exact ⟨[], rfl, by decide⟩
    · exact ⟨['-'], rfl, by decide⟩
  | tagName c name hc hname => rw [Context.peek_startTag hc hname] at hpeek; cases hpeek
  | endTagName c name hc hname => rw [Context.peek_endTag hc hname] at hpeek; cases hpeek

/-- A value in a comment is followed from the comment, or from its opening. -/
theorem Valid.of_comment (h : Valid w) (hs : w.context.state = .comment) (value : Value) :
    w.ready = w ∧ '>' ∉ w.escapeValue value
      ∧ ((w.decided = { state := .comment } ∧ '>' ∉ w.held.text)
        ∨ (w.decided = {} ∧ ∃ more, w.held.text = '<' :: '!' :: '-' :: '-' :: more
          ∧ '>' ∉ more)) := by
  have hcontext : w.context = { state := .comment } := by
    rw [h.wellFormed_context.of_text (by rw [hs]; rfl), hs]
  have hvalue : '>' ∉ w.escapeValue value := by
    rw [escapeValue_comment hcontext (.inl rfl)]
    exact Html.notMem_escape (by decide)
  by_cases htext : w.decided.state = .text
  · obtain ⟨hdecided, hheld⟩ := h.held_of_opening hcontext htext
    have hready := h.ready_eq_self (by rw [hdecided]) (by rw [htext]; decide)
    exact ⟨hready, hvalue, .inr ⟨hdecided, hheld⟩⟩
  · have hdecided := h.decided_of_comment hcontext htext
    have hready := h.ready_eq_self (by rw [hdecided]) (by rw [hdecided]; decide)
    exact ⟨hready, hvalue, .inl ⟨hdecided, h.held_of_comment hdecided⟩⟩

/-- **Where a value in a comment leads to.** -/
theorem comment_writeValue (hw : Reachable w) (hopen : w.closed = false)
    (hs : w.context.state = .comment) (value : Value) (hmemory : (w.writeValue value).HadMemory) :
    let next := (w.writeValue value).writer
    (next.decided, next.held.text) ∈ Context.commentPlaces
      ∧ next.held.text = w.leftOpen value := by
  obtain ⟨hready, hvalue, hplace⟩ := hw.valid.of_comment hs value
  rw [writeValue_eq hopen, hready] at hmemory ⊢
  obtain ⟨hnext, hnext'⟩ := followed_of_advance hmemory
  rw [leftOpen, if_pos hs]
  dsimp only
  rw [hnext, hnext']
  rcases hplace with ⟨hdecided, hheld⟩ | ⟨hdecided, more, hmore, hheld⟩
  · rw [hdecided]
    exact Context.mem_commentPlaces_comment (by simp [hheld, hvalue])
  · rw [hdecided, hmore]
    exact Context.mem_commentPlaces_opening (by simp [hheld, hvalue])

/-- A value in a comment that there is no memory for leaves the comment as it is. -/
theorem ahead_of_refused_comment (hw : Reachable w) (hopen : w.closed = false)
    (hs : w.context.state = .comment) {e : LimitExceeded}
    (h : (w.writeValue value).error = some (.heldTextLimit e)) (text : Text) :
    (w.writeValue value).writer.ahead text = w.ahead text := by
  obtain ⟨hready, hvalue, hplace⟩ := hw.valid.of_comment hs value
  rw [writeValue_eq hopen, hready] at h ⊢
  generalize ho : w.advance (w.escapeValue value) = outcome at h ⊢
  cases ho ▸ advances w (w.escapeValue value) with
  | sent => exact absurd h (error_sendDecided_ne _ e)
  | lost p hp held hnone hheld =>
    -- the value has been read, but the comment goes on all the same
    subst hp
    have hdecided : w.decided = { state := .comment } := by
      rcases hplace with ⟨hdecided, -⟩ | ⟨-, more, hmore, -⟩
      · exact hdecided
      · rw [hnone] at hmore
        cases hmore
    change (w.decided.advance false (w.escapeValue value)).context.peek (held.text ++ text)
      = w.decided.peek (w.held.text ++ text)
    rw [hdecided, (Context.advance_comment hvalue).1, hheld, hnone]
  | refused held hheld => exact congrArg (fun t => w.decided.peek (t ++ text)) hheld

/-! ### Block comments -/

/-- Where a value in a block comment leads to. -/
inductive AfterBlockValue (w : Writer) (value : Value) (next : Writer) : Prop where
  /-- The comment has read the value. -/
  | read (hopen : w.leftOpen value = starText (w.context.endsInStar (w.readText value)))
      (hdecided : next.decided = w.context.withStar (w.context.endsInStar (w.readText value)))
      (hheld : next.held.text = [])
  /-- The value goes on with an end tag. -/
  | endTag (hin : w.context.InContent .script)
      (hstarts : Html.Element.script.StartsEndTag (w.held.text ++ w.readText value))
      (hopen : w.leftOpen value = Text.lower (w.held.text ++ w.readText value))
      (hdecided : next.decided = w.decided)
      (hheld : next.held.text = w.held.text ++ w.readText value)

theorem readText_blockComment (hs : w.context.state = .js .blockComment) (value : Value) :
    w.readText value = Js.escapeString (valueText w.serializer .jsString value) := by
  have hback : w.context.secondBackslash = [] := by
    have hescapes : w.context.state.allowsEscapes = false := by rw [hs]; rfl
    simp [Context.secondBackslash, Context.hasPartialEscape_of_state hescapes]
  have hescaper : Escaper.ofContext w.context = .jsString := by
    simp [Escaper.ofContext, hs, Escaper.ofJs]
  rw [readText, Context.readFor, hback, hescaper]
  rfl

/-- A value in a block comment has no character that means something in markup. -/
theorem ne_of_mem_readText (hs : w.context.state = .js .blockComment) {c : Char}
    (hc : c ∈ w.readText value) : c ≠ '<' ∧ c ≠ '\x00' := by
  rw [readText_blockComment hs] at hc
  have hinline := Js.isInline_of_mem_escapeString hc
  exact ⟨ne_of_class hinline (by decide), ne_of_class hinline (by decide)⟩

/-- The start of an end tag is read by the comment that it is in for now. -/
theorem Valid.feedAll_startsEndTag (h : Valid w) (hin : w.context.InContent .script)
    (hs : w.context.state = .js .blockComment)
    (hstarts : Html.Element.script.StartsEndTag (w.held.text ++ w.readText value)) :
    w.decided.feedAll (w.held.text ++ w.readText value)
      = w.context.withStar (w.context.endsInStar (w.readText value)) := by
  have hcloses : ¬ Html.Element.script.Closes (w.held.text ++ w.readText value) :=
    fun hcloses => absurd hcloses.length_lt (by have := hstarts.length_le; omega)
  have hread := h.peek_eq_feedAll hin rfl (fun hmem => (ne_of_mem_readText hs hmem).1 rfl) hcloses
  have hpeek := (h.of_inContent hin).1.peek_append (t := []) rfl hstarts
    (by rwa [List.append_nil])
  rw [List.append_nil, Context.peek_nil] at hpeek
  rw [← hpeek, hread, readText_blockComment hs, Context.feedAll_blockComment_escapeString hs]

/-- A value in a block comment that there is no memory for leaves the comment as it is. -/
theorem ahead_of_refused_blockComment (hw : Reachable w) (hopen : w.closed = false)
    (hs : w.context.state = .js .blockComment) {e : LimitExceeded}
    (h : (w.writeValue value).error = some (.heldTextLimit e)) (text : Text) :
    (w.writeValue value).writer.ahead text = w.ahead text := by
  obtain ⟨hdecided, hheld⟩ := kept_of_refused_inCode hw hopen (.inr (.inl (by rw [hs]; rfl))) value
    (fun c hc => ne_of_mem_readText hs (List.mem_append_right _ hc)) h
  rw [ahead, ahead, hdecided, hheld]

/-- **Where a value in a block comment leads to**, unless it completes the end tag of the script. -/
theorem blockComment_writeValue (hw : Reachable w) (hopen : w.closed = false)
    (hs : w.context.state = .js .blockComment) (value : Value)
    (hmemory : (w.writeValue value).HadMemory)
    (hends : ¬ w.EndsScript value) : w.AfterBlockValue value (w.writeValue value).writer := by
  have hvalid := hw.valid
  have hwf := hvalid.wellFormed_context
  have hcode : w.context.InCode := .inr (.inl (by rw [hs]; rfl))
  have hne : w.context.state ≠ .comment := by rw [hs]; decide
  -- either the value goes on with the end tag that is held back, or all of it is read
  by_cases htag : w.context.delim = none
      ∧ Html.Element.script.StartsEndTag (w.held.text ++ w.readText value)
  · have hin := hwf.inContent_script htag.1 (by rw [hs]; rfl)
    have hundecided := (hvalid.of_inContent hin).1.undecided_of_startsEndTag rfl htag.2
    rw [writeValue_eq hopen, hvalid.ready_eq hin, escapeValue_eq_readText hcode htag.1]
      at hmemory ⊢
    obtain ⟨hdecided, hheld⟩ := followed_of_advance hmemory
    rw [hundecided.advance] at hdecided hheld
    exact .endTag hin htag.2 (by rw [leftOpen, if_neg hne, if_pos htag]) hdecided hheld
  · obtain ⟨hcontext, hheld⟩ := read_writeValue hw hopen hcode value
      (fun c hc => ne_of_mem_readText hs (List.mem_append_right _ hc)) hmemory fun element hin => by
        obtain rfl := hwf.eq_script (by rw [hs]; rfl) hin
        refine ⟨fun hcloses => hends ⟨hin, hcloses⟩, fun hstarts => htag ⟨hin.delim, ?_⟩⟩
        rwa [escapeValue_eq_readText hcode hin.delim] at hstarts
    refine .read (by rw [leftOpen, if_neg hne, if_neg htag]) ?_ hheld
    rw [← context_eq_decided hheld, hcontext, readText_blockComment hs,
      Context.feedAll_blockComment_escapeString hs]

/-- A value that completes the end tag ends the script with the comment. -/
theorem not_inContent_of_endsScript (hw : Reachable w) (hopen : w.closed = false)
    (hs : w.context.state = .comment ∨ w.context.state = .js .blockComment)
    (hmemory : (w.writeValue value).HadMemory) (hends : w.EndsScript value) :
    ¬ (w.writeValue value).writer.context.InContent .script := by
  obtain ⟨hin, hcloses⟩ := hends
  rcases hs with hs | hs
  · have hcontent := hin.state
    rw [hs] at hcontent
    cases hcontent
  · have hvalue : '<' ∉ w.escapeValue value := by
      rw [escapeValue_eq_readText (.inr (.inl (by rw [hs]; rfl))) hin.delim]
      exact fun hmem => (ne_of_mem_readText hs hmem).1 rfl
    exact not_inContent_of_closes hw hopen hin rfl hvalue hmemory hcloses

/-! ### What further text can tell -/

section Comments

variable (hmem : (next.decided, next.held.text) ∈ Context.commentPlaces)
  (hmem' : (next'.decided, next'.held.text) ∈ Context.commentPlaces)

include hmem hmem'

theorem ahead_eq_of_commentPlaces (heq : next.held.text = next'.held.text) (text : Text) :
    next.ahead text = next'.ahead text := by
  have hdecided : next.decided = next'.decided :=
    Context.eq_of_mem_commentPlaces _ hmem _ hmem' heq
  rw [ahead, ahead, heq, hdecided]

theorem exists_ahead_ne_of_commentPlaces (hne : next.held.text ≠ next'.held.text) :
    ∃ text, '<' ∉ text ∧ next.ahead text ≠ next'.ahead text := by
  obtain ⟨text, htext, hpeek⟩ := Context.exists_peek_ne_of_mem_commentPlaces _ hmem _ hmem' hne
  refine ⟨text, ?_, hpeek⟩
  simp only [List.mem_cons, List.not_mem_nil, or_false] at htext
  rcases htext with rfl | rfl | rfl | rfl <;> decide

end Comments

section BlockComments

variable (hs : w.context.state = .js .blockComment) (hnext : w.AfterBlockValue value next)
  (hnext' : w.AfterBlockValue value' next')

include hs hnext hnext'

/-- Values that leave the same open of a block comment. -/
theorem Valid.ahead_eq_of_afterBlockValue (h : Valid w) (heq : w.leftOpen value = w.leftOpen value')
    (text : Text) : next.ahead text = next'.ahead text := by
  cases hnext with
  | read hopen hdecided hheld =>
    cases hnext' with
    | read hopen' hdecided' hheld' =>
      have hstar := eq_of_starText_eq (hopen.symm.trans (heq.trans hopen'))
      rw [ahead, ahead, hdecided, hdecided', hheld, hheld', hstar]
    | endTag _ hstarts hopen' =>
      exact absurd (hopen.symm.trans (heq.trans hopen')) (starText_ne_lower hstarts)
  | endTag hin hstarts hopen hdecided hheld =>
    cases hnext' with
    | read hopen' =>
      exact absurd (hopen'.symm.trans (heq.symm.trans hopen)) (starText_ne_lower hstarts)
    | endTag _ hstarts' hopen' hdecided' hheld' =>
      have hlower := hopen.symm.trans (heq.trans hopen')
      have hread : Text.lower (w.readText value) = Text.lower (w.readText value') := by
        rw [Text.lower_append, Text.lower_append] at hlower
        exact List.append_cancel_left hlower
      rw [ahead, ahead, hdecided, hdecided', hheld, hheld']
      -- the two differ in the case of letters only, and those are the last thing that has been read
      refine (h.of_inContent hin).1.peek_append_congr rfl hstarts hstarts' hlower ?_ text
      rw [h.feedAll_startsEndTag hin hs hstarts, h.feedAll_startsEndTag hin hs hstarts',
        Context.endsInStar_congr hread]

/-- A `/` tells whether there is a star before it, and the rest of an end tag how much of it there
is. -/
theorem Valid.exists_ahead_ne_of_afterBlockValue (h : Valid w)
    (hne : w.leftOpen value ≠ w.leftOpen value') :
    ∃ text, '<' ∉ text ∧ next.ahead text ≠ next'.ahead text := by
  -- the text completes what is longer
  wlog hle : next.held.text.length ≤ next'.held.text.length generalizing value value' next next'
  · obtain ⟨text, htext, hpeek⟩ := this hnext' hnext hne.symm (by omega)
    exact ⟨text, htext, hpeek.symm⟩
  cases hnext' with
  | read hopen' hdecided' hheld' =>
    cases hnext with
    | read hopen hdecided hheld =>
      refine ⟨['/'], by decide, fun heq => hne ?_⟩
      rw [ahead, ahead, hdecided, hdecided', hheld, hheld'] at heq
      rw [hopen, hopen', Context.eq_of_peek_slash_eq hs heq]
    | endTag _ hstarts _ _ hheld =>
      have hpos := List.length_pos_iff.mpr hstarts.ne_nil
      rw [hheld, hheld', List.length_nil] at hle
      omega
  | endTag hin hstarts' hopen' hdecided' hheld' =>
    have hin' := (h.of_inContent hin).1
    simp only [ahead, hdecided', hheld']
    cases hnext with
    | read _ hdecided hheld =>
      rw [hdecided, hheld]
      exact (hin.withStar _).exists_peek_ne hin' rfl (.inl rfl) hstarts'
        (List.length_pos_iff.mpr hstarts'.ne_nil)
    | endTag _ hstarts hopen hdecided hheld =>
      rw [hopen, hopen'] at hne
      rw [hheld, hheld'] at hle
      rw [hdecided, hheld]
      refine hin'.exists_peek_ne hin' rfl (.inr hstarts) hstarts' (Nat.lt_of_le_of_ne hle ?_)
      exact fun hlength => hne (hstarts.lower_eq hstarts' hlength)

end BlockComments

/-- **All that further text can tell of a value in a comment is what the value leaves open** of the
comment's end. Values that leave the same open lead to the same contexts, whatever text follows. Of
others some text tells which one has been written. Apart from that a value does nothing where there
is no memory for it, and it ends the script that it is in where it completes the end tag. -/
theorem later_contexts_of_leftOpen (hw : Reachable w) (hopen : w.closed = false)
    (hs : w.context.state = .comment ∨ w.context.state = .js .blockComment) :
    let next (v : Value) := (w.writeValue v).writer
    (∀ v text, ((next v).writeTrusted text).HadMemory →
        ((next v).writeTrusted text).writer.context = (next v).ahead text)
      ∧ (∀ v e, (w.writeValue v).error = some (.heldTextLimit e) →
        ∀ text, (next v).ahead text = w.ahead text)
      ∧ (∀ v, (w.writeValue v).HadMemory → w.EndsScript v →
        ¬ (next v).context.InContent .script)
      ∧ ∀ v v', (w.writeValue v).HadMemory → (w.writeValue v').HadMemory →
        ¬ w.EndsScript v → ¬ w.EndsScript v' →
          (w.leftOpen v = w.leftOpen v' → ∀ text, (next v).ahead text = (next v').ahead text)
            ∧ (w.leftOpen v ≠ w.leftOpen v' →
              ∃ text, '<' ∉ text ∧ (next v).ahead text ≠ (next v').ahead text) := by
  have hvalid := hw.valid
  dsimp only
  refine ⟨fun v text => context_writeTrusted (closed_writeValue hvalid hopen v), fun v e he => ?_,
    fun v => not_inContent_of_endsScript hw hopen hs, fun v v' hmemory hmemory' hends hends' => ?_⟩
  · rcases hs with hs | hs
    · exact ahead_of_refused_comment hw hopen hs he
    · exact ahead_of_refused_blockComment hw hopen hs he
  rcases hs with hs | hs
  · -- a comment of the page keeps its last dashes held back
    obtain ⟨hmem, hheld⟩ := comment_writeValue hw hopen hs v hmemory
    obtain ⟨hmem', hheld'⟩ := comment_writeValue hw hopen hs v' hmemory'
    rw [← hheld, ← hheld']
    exact ⟨ahead_eq_of_commentPlaces hmem hmem', exists_ahead_ne_of_commentPlaces hmem hmem'⟩
  · -- a comment of a script remembers its last star
    have hnext := blockComment_writeValue hw hopen hs v hmemory hends
    have hnext' := blockComment_writeValue hw hopen hs v' hmemory' hends'
    exact ⟨hvalid.ahead_eq_of_afterBlockValue hs hnext hnext',
      hvalid.exists_ahead_ne_of_afterBlockValue hs hnext hnext'⟩

/-- Two values that end in a dash each. -/
theorem same_after_dashes :
    let w := startingWith "<!-- ".toList
    let value := Value.str "a-".toList
    let value' := Value.str "b-".toList
    w.closed = false ∧ w.context.state = .comment
      ∧ (w.writeValue value).error = none ∧ (w.writeValue value').error = none
      ∧ w.leftOpen value = ['-'] ∧ w.leftOpen value' = ['-']
      ∧ ∀ text,
        (w.writeValue value).writer.ahead text = (w.writeValue value').writer.ahead text := by
  intro w value value'
  have hopen : w.closed = false := by decide +kernel
  have hs : w.context.state = .comment := by decide +kernel
  have hsent : (w.writeValue value).error = none := by decide +kernel
  have hsent' : (w.writeValue value').error = none := by decide +kernel
  have hleft : w.leftOpen value = ['-'] := by decide +kernel
  have hleft' : w.leftOpen value' = ['-'] := by decide +kernel
  -- a comment of the page is in no script
  have hends (v : Value) : ¬ w.EndsScript v := by
    rintro ⟨hin, -⟩
    have hcontent := hin.state
    rw [hs] at hcontent
    cases hcontent
  obtain ⟨-, -, -, hpairs⟩ := later_contexts_of_leftOpen
    (reachable_startingWith "<!-- ".toList) hopen (.inl hs)
  obtain ⟨hsame, -⟩ := hpairs value value' (Outcome.hadMemory_of_error_eq_none hsent)
    (Outcome.hadMemory_of_error_eq_none hsent') (hends value) (hends value')
  exact ⟨hopen, hs, hsent, hsent', hleft, hleft', hsame (hleft.trans hleft'.symm)⟩

/-- **A value can end the comment that it is written in**, together with a `>` that other values
leave in the comment. -/
theorem dashes_end_comment :
    let w := startingWith "<!-- ".toList
    let later (value : Value) := (w.writeValue value).writer.writeTrusted ">".toList
    Reachable w ∧ w.closed = false ∧ w.context.state = .comment
      ∧ (w.writeValue (.str "--".toList)).error = none ∧ (later (.str "--".toList)).error = none
      ∧ (w.writeValue (.str "x".toList)).error = none ∧ (later (.str "x".toList)).error = none
      ∧ (later (.str "--".toList)).writer.context ≠ (later (.str "x".toList)).writer.context :=
  ⟨reachable_startingWith "<!-- ".toList, by decide +kernel, by decide +kernel, by decide +kernel,
    by decide +kernel, by decide +kernel, by decide +kernel, by decide +kernel⟩

end Writer

end SafeMarkup
