import SafeMarkup.Proofs.HeldShapes
import SafeMarkup.Proofs.CommentValues
import SafeMarkup.Proofs.Closing

/-!
# Untrusted names of tags

The filter for names of tags looks up the last part of a name, after any `<` in it, together with
the value; the grammar looks up the name as a whole. That comes to the same, because the names of
special elements consist of letters (`ofTagName?_filterTagName`). So once a value has been written
into the name of a tag, the tag is a regular one, or no tag at all (`RegularTag`), and it stays one
with every further value (`InRegularTag.writeValue`). When the name is complete no special element
has been opened (`element_of_named_tag`).
-/

namespace SafeMarkup

namespace Text

variable {run rest : Text} {c : Char} {ends : Char → Bool}

/-! ### Runs and what ends them -/

theorem takeWhile_run (hrun : ∀ d ∈ run, ends d = false) (hc : ends c = true) :
    (run ++ c :: rest).takeWhile (!ends ·) = run := by
  rw [List.takeWhile_append_of_pos (by simpa using hrun)]
  simp [hc]

theorem dropWhile_run (hrun : ∀ d ∈ run, ends d = false) (hc : ends c = true) :
    (run ++ c :: rest).dropWhile (!ends ·) = c :: rest := by
  rw [List.dropWhile_append_of_pos (by simpa using hrun)]
  simp [hc]

end Text

namespace Html

variable {name start text : Text}

/-! ### Names of special elements -/

/-- A name found names the element in any case. -/
theorem lower_of_ofTagName? {element : Element} (h : Element.ofTagName? name = some element) :
    Text.lower name = element.tagName := by
  rw [Element.ofTagName?] at h
  have hsame := List.find?_some h
  rw [← Element.lower_tagName]
  exact eq_of_beq hsame

/-- The names of special elements consist of letters. -/
theorem isAlpha_of_ofTagName? {element : Element} (h : Element.ofTagName? name = some element)
    {c : Char} (hc : c ∈ name) : c.toLower.isAlpha = true := by
  have hmem : c.toLower ∈ element.tagName := by
    rw [← lower_of_ofTagName? h]
    exact List.mem_map_of_mem hc
  have hletters : element.tagName.all Char.isAlpha = true := by cases element <;> decide
  exact List.all_eq_true.mp hletters _ hmem

/-- No special element's name ends in the placeholder. -/
theorem ofTagName?_placeholder (start : Text) :
    Element.ofTagName? (start ++ namePlaceholder) = none := by
  rw [Option.eq_none_iff_forall_ne_some]
  intro element h
  have hlast : some 'z' = element.tagName.getLast? := by
    rw [← lower_of_ofTagName? h, Text.lower_append, List.getLast?_append]
    rfl
  cases element <;> exact absurd hlast (by decide)

/-- A name without a `<` goes on with what has been there of it before. -/
theorem trailingName_append (hname : ∀ d ∈ name, endsTagName d = false) (hlt : '<' ∉ name)
    (held : Text) : trailingName (held ++ name) = trailingName held ++ name := by
  have hall : ∀ d ∈ name.reverse, (!(endsTagName d || d == '<')) = true := by
    intro d hd
    have hd := List.mem_reverse.mp hd
    have hne : d ≠ '<' := fun e => hlt (e ▸ hd)
    simp [hname d hd, hne]
  rw [trailingName, List.reverse_append, List.takeWhile_append_of_pos hall, List.reverse_append,
    List.reverse_reverse, trailingName]

/-- **What the filter looks up is enough**: the name as a whole is not that of a special element
either. -/
theorem ofTagName?_filterTagName (hname : ∀ d ∈ name, endsTagName d = false) (text : Text) :
    Element.ofTagName? (name ++ filterTagName (trailingName ('<' :: name)) text) = none := by
  by_cases hlt : '<' ∈ name
  · -- the filter has looked up less than the name, but a `<` is no letter
    rw [Option.eq_none_iff_forall_ne_some]
    intro element h
    exact absurd (isAlpha_of_ofTagName? h (List.mem_append_left _ hlt)) (by decide)
  · have hstart : trailingName ('<' :: name) = name := trailingName_append hname hlt ['<']
    rw [hstart, filterTagName]
    split
    · next h =>
      rw [Bool.and_eq_true] at h
      exact Option.isNone_iff_eq_none.mp h.2
    · exact ofTagName?_placeholder name

end Html

namespace Context

variable {ctx : Context} {held t : Text} {c : Char}

/-! ### Tags that open no special element -/

/-- A tag up to somewhere in its name, which starts with a letter. -/
inductive TagStart : Text → Prop where
  | start (name : Text) (hfirst : ∀ c ∈ name.head?, c.isAlpha = true)
      (hname : ∀ d ∈ name, Html.endsTagName d = false) : TagStart ('<' :: name)
  | endTag (name : Text) (hfirst : ∀ c ∈ name.head?, c.isAlpha = true)
      (hname : ∀ d ∈ name, Html.endsTagName d = false) : TagStart ('<' :: '/' :: name)

/-- `held` is held back at `ctx`, of a tag whose name does not say that it opens a special element
and cannot come to say so. Before a digit a `<` starts no tag; then nothing is held back. -/
inductive RegularTag : Context → Text → Prop where
  | start (c : Char) (name : Text) (hc : c.isAlpha = true)
      (hname : ∀ d ∈ c :: name, Html.endsTagName d = false)
      (hnone : Html.Element.ofTagName? (c :: name) = none) : RegularTag {} ('<' :: c :: name)
  | endTag (c : Char) (name : Text) (hc : c.isAlpha = true)
      (hname : ∀ d ∈ c :: name, Html.endsTagName d = false) :
      RegularTag {} ('<' :: '/' :: c :: name)
  | noTag (state : State) (hs : state = .text ∨ state = .bogusComment) : RegularTag { state } []

/-- Text without angle brackets neither starts a tag nor ends markup that is ignored. -/
theorem advance_noTag {state : State} (hs : state = .text ∨ state = .bogusComment)
    {last : Bool} (hlt : '<' ∉ t) (hgt : '>' ∉ t) :
    advance { state } last t = ⟨{ state }, t, []⟩ := by
  induction t with
  | nil => rfl
  | cons c t ih =>
    rw [List.mem_cons, not_or] at hlt hgt
    have hstep : step { state } last c t = .consumed { state } [c] 1 := by
      rcases hs with rfl | rfl
      · simp [step, stepText, Ne.symm hlt.1]
      · simp [step, stepBogusComment, Ne.symm hgt.1]
    rw [advance_consumed hstep, List.drop_zero, ih hlt.2 hgt.2]
    rfl

theorem notMem_cons_digit (hc : c.isDigit = true) {d : Char} (hd : d.isDigit = false)
    (ht : d ∉ t) : d ∉ c :: t :=
  List.not_mem_cons_of_ne_of_not_mem (ne_of_class hc hd).symm ht

/-- Before a digit a `<` starts no tag. -/
theorem advance_digit (hc : c.isDigit = true) (hlt : '<' ∉ t) (hgt : '>' ∉ t) :
    advance {} false ('<' :: c :: t) = ⟨{}, '<' :: c :: t, []⟩ := by
  rw [advance_consumed (step_digit hc), List.drop_zero, advance_noTag (.inl rfl)
    (notMem_cons_digit hc (by decide) hlt) (notMem_cons_digit hc (by decide) hgt)]
  rfl

/-- After `</` a digit starts a bogus comment. -/
theorem advance_endTag_digit (hc : c.isDigit = true) (hlt : '<' ∉ t) (hgt : '>' ∉ t) :
    advance {} false ('<' :: '/' :: c :: t)
      = ⟨{ state := .bogusComment }, '<' :: '/' :: c :: t, []⟩ := by
  rw [advance_consumed (step_endTag_digit hc)]
  change (advance { state := .bogusComment } false (c :: t)).after ['<', '/'] = _
  rw [advance_noTag (.inr rfl) (notMem_cons_digit hc (by decide) hlt)
    (notMem_cons_digit hc (by decide) hgt)]
  rfl

/-- A name that goes on with letters and digits starts with a letter, or with a digit if all of it
is what it goes on with. -/
theorem exists_first {name v : Text} (hfirst : ∀ c ∈ name.head?, c.isAlpha = true)
    (hne : v ≠ []) (hv : ∀ d ∈ v, d.isAlphanum = true) :
    ∃ c more, name ++ v = c :: more
      ∧ (c.isAlpha = true ∨ c.isDigit = true ∧ '<' ∉ more ∧ '>' ∉ more) := by
  rcases name with _ | ⟨c, name⟩
  · obtain ⟨c, more, rfl⟩ := List.exists_cons_of_ne_nil hne
    have hnone {d : Char} (hd : d.isAlphanum = false) : d ∉ more := fun hmem => by
      rw [hv d (List.mem_cons_of_mem c hmem)] at hd
      cases hd
    refine ⟨c, more, rfl, ?_⟩
    by_cases hc : c.isAlpha = true
    · exact .inl hc
    · have hdigit : c.isDigit = true := by
        simpa [Char.isAlphanum, hc] using hv c List.mem_cons_self
      exact .inr ⟨hdigit, hnone (by decide), hnone (by decide)⟩
  · exact ⟨c, name ++ v, rfl, .inl (hfirst c rfl)⟩

/-- **A value in the name of a tag** makes it the name of a regular one. -/
theorem TagStart.value (h : TagStart held) (text : Text) :
    let p := advance {} false (held ++ Html.filterTagName (Html.trailingName held) text)
    RegularTag p.context p.held := by
  intro p
  have hne := Html.filterTagName_ne_nil (Html.trailingName held) text
  have hv (d : Char) (hd : d ∈ Html.filterTagName (Html.trailingName held) text) :
      d.isAlphanum = true := Html.isAlphanum_of_mem_filterTagName hd
  have hall {name : Text} (hname : ∀ d ∈ name, Html.endsTagName d = false) :
      ∀ d ∈ name ++ Html.filterTagName (Html.trailingName held) text,
        Html.endsTagName d = false := by
    intro d hd
    rcases List.mem_append.mp hd with hd | hd
    · exact hname d hd
    · exact Html.endsTagName_of_isAlphanum (hv d hd)
  subst p
  -- the name may start with the value, and a value may start with a digit
  cases h with
  | start name hfirst hname =>
    have hnone := Html.ofTagName?_filterTagName hname text
    have hall := hall hname
    obtain ⟨c, more, heq, hc⟩ := exists_first hfirst hne hv
    rw [List.cons_append, heq]
    rw [heq] at hnone hall
    rcases hc with hc | ⟨hc, hlt, hgt⟩
    · have hu : Undecided {} ('<' :: c :: more) := .markup _ rfl rfl (.tagName c more hc hall)
      rw [hu.advance]
      exact .start c more hc hall hnone
    · rw [advance_digit hc hlt hgt]
      exact .noTag .text (.inl rfl)
  | endTag name hfirst hname =>
    have hall := hall hname
    obtain ⟨c, more, heq, hc⟩ := exists_first hfirst hne hv
    rw [List.cons_append, List.cons_append, heq]
    rw [heq] at hall
    rcases hc with hc | ⟨hc, hlt, hgt⟩
    · have hu : Undecided {} ('<' :: '/' :: c :: more) :=
        .markup _ rfl rfl (.endTagName c more hc hall)
      rw [hu.advance]
      exact .endTag c more hc hall
    · rw [advance_endTag_digit hc hlt hgt]
      exact .noTag .bogusComment (.inr rfl)

/-- With something held back, the tag has not got its name yet. -/
theorem RegularTag.tagStart (h : RegularTag ctx held) (hheld : held ≠ []) :
    ctx = {} ∧ TagStart held := by
  cases h with
  | start c name hc hname => exact ⟨rfl, .start _ (by simpa using hc) hname⟩
  | endTag c name hc hname => exact ⟨rfl, .endTag _ (by simpa using hc) hname⟩
  | noTag => exact absurd rfl hheld

theorem RegularTag.of_nil (h : RegularTag ctx []) :
    ∃ state, (state = .text ∨ state = .bogusComment) ∧ ctx = { state } := by
  cases h with
  | noTag state hs => exact ⟨state, hs, rfl⟩

theorem TagStart.ne_nil (h : TagStart held) : held ≠ [] := by
  cases h <;> exact List.cons_ne_nil _ _

/-- Of a tag whose name goes on nothing else is known. -/
theorem TagStart.peek (h : TagStart held) : Context.peek {} held = { state := .tagName } := by
  cases h with
  | start name hfirst hname =>
    rcases name with _ | ⟨c, name⟩
    · rfl
    · exact peek_startTag (hfirst c rfl) hname
  | endTag name hfirst hname =>
    rcases name with _ | ⟨c, name⟩
    · rfl
    · exact peek_endTag (hfirst c rfl) hname

/-! ### The end of the name -/

/-- A name that is there as a whole is looked up. -/
theorem stepTagName_end {opening : Text} {element : Text → Option Html.Element} {name more : Text}
    {last : Bool} (hname : ∀ d ∈ name, Html.endsTagName d = false)
    (hc : Html.endsTagName c = true) :
    ctx.stepTagName last opening element (name ++ c :: more)
      = .consumed { state := .tag, element := element name } (opening ++ name)
          (opening.length + name.length) := by
  simp only [stepTagName, Text.takeWhile_run hname hc, Text.dropWhile_run hname hc]

/-- The context after the tag's name and the character that ends it. -/
def afterTagName (c : Char) : Context := if c = '>' then {} else { state := .tag }

/-- After the name of a tag, the character that ends it is read in the tag. -/
theorem peek_tagEnd (hc : Html.endsTagName c = true) :
    peek { state := .tag } [c] = afterTagName c := by
  by_cases hclose : c = '>'
  · subst hclose
    rfl
  · have hstep : step { state := .tag } true c [] = .consumed { state := .tag } [c] 1 := by
      simp [step, stepTag, hclose, hc]
    rw [peek, advance_consumed hstep, afterTagName, if_neg hclose]
    rfl

/-- **A regular tag opens no special element.** -/
theorem RegularTag.peek_end (h : RegularTag ctx held) (hc : Html.endsTagName c = true) :
    (ctx.peek (held ++ [c])).element = none
      ∧ (held ≠ [] → ctx.peek (held ++ [c]) = afterTagName c) := by
  have hnone : (afterTagName c).element = none := by
    unfold afterTagName
    split <;> rfl
  have tag {text : Text} (hpeek : ctx.peek (text ++ [c]) = afterTagName c) :
      (ctx.peek (text ++ [c])).element = none
        ∧ (text ≠ [] → ctx.peek (text ++ [c]) = afterTagName c) :=
    ⟨by rw [hpeek, hnone], fun _ => hpeek⟩
  -- the name is looked up, and then the character is read in the tag
  cases h with
  | start d name hd hname helement =>
    refine tag ?_
    have hstep : step {} true '<' (d :: name ++ [c])
        = .consumed { state := .tag } ('<' :: d :: name) (1 + (d :: name).length) := by
      have hmarkup : step {} true '<' (d :: name ++ [c])
          = stepTagName {} true ['<'] Html.Element.ofTagName? (d :: name ++ [c]) :=
        stepMarkup_letter hd
      rw [hmarkup, stepTagName_end hname hc, helement]
      rfl
    rw [List.cons_append, Context.peek, advance_consumed hstep, Nat.add_sub_cancel_left,
      List.drop_left, after_context]
    exact peek_tagEnd hc
  | endTag d name hd hname =>
    refine tag ?_
    have hstep : step {} true '<' ('/' :: (d :: name ++ [c]))
        = .consumed { state := .tag } ('<' :: '/' :: d :: name) (2 + (d :: name).length) := by
      have hmarkup : step {} true '<' ('/' :: (d :: name ++ [c]))
          = stepTagName {} true ['<', '/'] (fun _ => none) (d :: name ++ [c]) :=
        stepMarkup_endTag hd
      rw [hmarkup, stepTagName_end hname hc]
      rfl
    have hdrop : ('/' :: (d :: name ++ [c])).drop (2 + (d :: name).length - 1) = [c] := by
      rw [show 2 + (d :: name).length - 1 = (d :: name).length + 1 by omega, List.drop_succ_cons,
        List.drop_left]
    rw [List.cons_append, List.cons_append, Context.peek, advance_consumed hstep, hdrop,
      after_context]
    exact peek_tagEnd hc
  | noTag state hs =>
    have hlt : '<' ∉ [c] := by
      rw [List.mem_singleton]
      rintro rfl
      cases hc
    exact ⟨element_advance rfl hlt, fun hne => absurd rfl hne⟩

end Context

namespace Writer

variable {w : Writer}

/-! ### Writers in the name of a tag -/

/-- What is held back of a tag in whose name a value can be written. -/
theorem Valid.tagStart (h : Valid w) (hs : w.context.state = .tagName)
    (hname : w.decided.state.isPartialName = false) :
    w.decided = {} ∧ Context.TagStart w.held.text := by
  have hmarkup : w.decided.state = .text ∧ w.held.text ≠ [] := by
    rcases h.held with hnone | hu
    · rw [context, hnone, Context.peek_nil] at hs
      rw [hs] at hname
      cases hname
    refine ⟨?_, hu.ne_nil⟩
    have hpeeks := hu.peek h.wellFormed
    rw [← context] at hpeeks
    rcases hpeeks.of_not_isContent h.wellFormed (by rw [hs]; rfl) with
      ⟨htext, -⟩ | ⟨-, hs'⟩ | ⟨-, hs'⟩
    · exact htext
    · rw [hs] at hs'
      cases hs'
    · rw [hs] at hs'
      cases hs'
  obtain ⟨hdecided, -, rest, hrest, hopen⟩ := h.of_text hmarkup.1 hmarkup.2
  refine ⟨hdecided, ?_⟩
  rw [context, hdecided] at hs
  rw [hrest] at hs ⊢
  -- declarations and comments are not taken for a tag
  cases hopen with
  | opening _ ht =>
    simp only [List.mem_cons, List.not_mem_nil, or_false] at ht
    rcases ht with rfl | rfl | rfl | rfl | rfl | rfl
    · exact .start [] (by simp) (by simp)
    · exact .endTag [] (by simp) (by simp)
    all_goals exact absurd hs (by decide)
  | tagName c name hc hname => exact .start _ (by simpa using hc) hname
  | endTagName c name hc hname => exact .endTag _ (by simpa using hc) hname

/-- What is held back is the start of a tag, in whose name a value can be written. -/
structure InTagName (w : Writer) : Prop where
  opened : w.closed = false
  valid : Valid w
  decided : w.decided = {}
  tag : Context.TagStart w.held.text

theorem InTagName.context_eq (h : InTagName w) : w.context = { state := .tagName } := by
  rw [context, h.decided, h.tag.peek]

theorem InTagName.ready_eq_self (h : InTagName w) : w.ready = w :=
  h.valid.ready_eq_self (by rw [h.decided]) (by simp [h.decided])

/-- A value that there is no memory for changes nothing. -/
theorem InTagName.refused (h : InTagName w) {value : Value}
    (hrefused : ¬ (w.writeValue value).HadMemory) :
    (w.writeValue value).writer.decided = w.decided
      ∧ (w.writeValue value).writer.held.text = w.held.text := by
  rw [writeValue_eq h.opened, h.ready_eq_self] at hrefused ⊢
  obtain ⟨e, he⟩ := not_forall_not.mp hrefused
  exact kept_of_refused h.tag.ne_nil he

/-- What is held back is the start of a regular tag. -/
structure InRegularTag (w : Writer) : Prop where
  opened : w.closed = false
  valid : Valid w
  tag : Context.RegularTag w.decided w.held.text

theorem InRegularTag.inTagName (h : InRegularTag w) (hheld : w.held.text ≠ []) : InTagName w :=
  ⟨h.opened, h.valid, (h.tag.tagStart hheld).1, (h.tag.tagStart hheld).2⟩

/-- **A value in the name of a tag** makes it the name of a regular one. -/
theorem InTagName.writeValue (h : InTagName w) {value : Value}
    (hmemory : (w.writeValue value).HadMemory) : InRegularTag (w.writeValue value).writer := by
  refine ⟨closed_writeValue h.valid h.opened value, h.valid.perform (.writeValue value), ?_⟩
  rw [writeValue_eq h.opened, h.ready_eq_self] at hmemory ⊢
  obtain ⟨hnext, hheld⟩ := followed_of_advance hmemory
  rw [hnext, hheld, escapeValue_tagName h.context_eq, h.decided]
  exact h.tag.value _

/-- A value where there is no tag starts none. -/
theorem writeValue_noTag {state : State} (hopen : w.closed = false) (hv : Valid w)
    (hs : state = .text ∨ state = .bogusComment) (hdecided : w.decided = { state })
    (hheld : w.held.text = []) (value : Value) :
    (w.writeValue value).writer.decided = w.decided
      ∧ (w.writeValue value).writer.held.text = w.held.text := by
  have hcontext : w.context = { state } := by rw [context, hheld, Context.peek_nil, hdecided]
  have hready : w.ready = w := by
    refine hv.ready_eq_self (by rw [hdecided]) ?_
    rcases hs with rfl | rfl <;> simp [hdecided]
  have hescape := escapeValue_markup hcontext (hs.imp_right .inr) value
  have hlt : '<' ∉ w.escapeValue value := hescape ▸ Html.notMem_escape (by decide)
  have hgt : '>' ∉ w.escapeValue value := hescape ▸ Html.notMem_escape (by decide)
  have hread : Context.advance { state } false (w.escapeValue value) = _ :=
    Context.advance_noTag hs hlt hgt
  rw [writeValue_eq hopen, hready, advance_eq_of_held hheld (hdecided ▸ hread) rfl]
  exact ⟨rfl, rfl⟩

/-- **It stays one** with every further value, whether there is memory for the value or not. -/
theorem InRegularTag.writeValue (h : InRegularTag w) (value : Value) :
    InRegularTag (w.writeValue value).writer := by
  refine ⟨closed_writeValue h.valid h.opened value, h.valid.perform (.writeValue value), ?_⟩
  -- where nothing is read the tag stays what it was
  have unchanged (hsame : (w.writeValue value).writer.decided = w.decided
      ∧ (w.writeValue value).writer.held.text = w.held.text) :
      Context.RegularTag (w.writeValue value).writer.decided
        (w.writeValue value).writer.held.text := by
    rw [hsame.1, hsame.2]
    exact h.tag
  by_cases hheld : w.held.text = []
  · have htag := h.tag
    rw [hheld] at htag
    obtain ⟨state, hs, hdecided⟩ := htag.of_nil
    exact unchanged (writeValue_noTag h.opened h.valid hs hdecided hheld value)
  · have hin := h.inTagName hheld
    by_cases hmemory : (w.writeValue value).HadMemory
    · exact (hin.writeValue hmemory).tag
    · exact unchanged (hin.refused hmemory)

/-- Values leave a regular tag regular. -/
theorem InRegularTag.performAll (h : InRegularTag w) (values : List Value) :
    InRegularTag (w.performAll (values.map .writeValue)) := by
  induction values generalizing w with
  | nil => exact h
  | cons value values ih => exact ih (h.writeValue value)

/-- Where neither the place nor what a character leads to is in a special element, the character
does not lead to one without memory for it either. -/
theorem element_writeTrusted {c : Char} (hopen : w.closed = false) (hc : c ≠ '<')
    (helement : w.context.element = none) (hnone : (w.ahead [c]).element = none) :
    (w.writeTrusted [c]).writer.context.element = none := by
  rw [writeTrusted_eq hopen]
  generalize ho : w.advance [c] = outcome
  cases ho ▸ advances w [c] with
  | sent p hp held hheld =>
    have hread := w.decided.peek_append (w.held.text ++ [c]) []
    rw [List.append_nil, List.append_nil, hp] at hread
    change (p.context.peek held.text).element = none
    rw [hheld, ← hread]
    exact hnone
  -- the text was read, and nothing of it could be held back
  | lost p hp held hheld hheld' =>
    subst hp
    change ((w.decided.advance false [c]).context.peek held.text).element = none
    rw [hheld', Context.peek_nil]
    rw [context_eq_decided hheld] at helement
    exact Context.element_advance helement (by simpa using hc.symm)
  | refused held hheld =>
    change (w.decided.peek held.text).element = none
    rw [hheld]
    exact helement

/-- **No special element is opened** where the tag's name ends. -/
theorem InRegularTag.writeTrusted (h : InRegularTag w) {c : Char}
    (hc : Html.endsTagName c = true) :
    (w.writeTrusted [c]).writer.context.element = none
      ∧ (w.context.state = .tagName → (w.writeTrusted [c]).HadMemory →
        (w.writeTrusted [c]).writer.context = Context.afterTagName c) := by
  obtain ⟨hnone, htag⟩ := h.tag.peek_end hc
  have hlt : c ≠ '<' := by
    rintro rfl
    cases hc
  -- there is no element yet, and in a name something is held back
  have hplace : w.context.element = none ∧ (w.context.state = .tagName → w.held.text ≠ []) := by
    by_cases hheld : w.held.text = []
    · have htag := h.tag
      rw [hheld] at htag
      obtain ⟨state, hs, hdecided⟩ := htag.of_nil
      rw [context_eq_decided hheld, hdecided]
      refine ⟨rfl, fun hs' => ?_⟩
      rcases hs with rfl | rfl <;> cases hs'
    · rw [(h.inTagName hheld).context_eq]
      exact ⟨rfl, fun _ => hheld⟩
  refine ⟨element_writeTrusted h.opened hlt hplace.1 hnone, fun hs hmemory => ?_⟩
  rw [context_writeTrusted h.opened hmemory]
  exact htag (hplace.2 hs)

/-- There is memory for one of the values at least. -/
def WritesSome (w : Writer) : List Value → Prop
  | [] => False
  | value :: values =>
    (w.writeValue value).HadMemory ∨ (w.writeValue value).writer.WritesSome values

/-- Values in a name change nothing, until one of them is written. Then the tag is a regular one. -/
theorem InTagName.performAll (h : InTagName w) (values : List Value) :
    let next := w.performAll (values.map .writeValue)
    (¬ w.WritesSome values → next.decided = w.decided ∧ next.held.text = w.held.text)
      ∧ (w.WritesSome values → InRegularTag next) := by
  induction values generalizing w with
  | nil => exact ⟨fun _ => ⟨rfl, rfl⟩, False.elim⟩
  | cons value values ih =>
    -- the first value that there is memory for settles it
    by_cases hmemory : (w.writeValue value).HadMemory
    · exact ⟨fun hnone => absurd (.inl hmemory) hnone,
        fun _ => (h.writeValue hmemory).performAll values⟩
    · obtain ⟨hdecided, hheld⟩ := h.refused hmemory
      have hnext : InTagName (w.writeValue value).writer :=
        ⟨closed_writeValue h.valid h.opened value, h.valid.perform (.writeValue value),
          hdecided.trans h.decided, hheld ▸ h.tag⟩
      obtain ⟨hkept, hregular⟩ := ih hnext
      refine ⟨fun hnone => ?_, fun hsome => hregular (hsome.resolve_left hmemory)⟩
      obtain ⟨hdecided', hheld'⟩ := hkept fun hsome => hnone (.inr hsome)
      exact ⟨hdecided'.trans hdecided, hheld'.trans hheld⟩

/-- **An untrusted name opens no special element.** Values are written into the name of a tag, and
there is memory for one of them at least. The character that ends the name leads to no special
element, and to the inside or the end of a regular tag if there is a tag. Values that there is no
memory for are not written: if there is none for any of them nothing has changed. -/
theorem element_of_named_tag (hw : Reachable w) (hopen : w.closed = false)
    (hs : w.context.state = .tagName) (values : List Value) :
    let next := w.performAll (values.map .writeValue)
    (w.WritesSome values → ∀ c, Html.endsTagName c = true →
        (next.writeTrusted [c]).writer.context.element = none
          ∧ (next.context.state = .tagName → (next.writeTrusted [c]).HadMemory →
            (next.writeTrusted [c]).writer.context = Context.afterTagName c))
      ∧ (¬ w.WritesSome values → next.context = w.context ∧ next.held.text = w.held.text) := by
  obtain ⟨hdecided, htag⟩ := hw.valid.tagStart hs (hw.isPartialName_eq hopen)
  have hin : InTagName w := ⟨hopen, hw.valid, hdecided, htag⟩
  obtain ⟨hkept, hregular⟩ := hin.performAll values
  refine ⟨fun hsome c hc => (hregular hsome).writeTrusted hc, fun hnone => ?_⟩
  obtain ⟨hdecided', hheld'⟩ := hkept hnone
  exact ⟨by rw [context, context, hdecided', hheld'], hheld'⟩

/-- The rest of a script's name does not make the tag that of a script. -/
theorem script_named_by_value :
    let w := startingWith "<scr".toList
    let values := [Value.str "ipt".toList, .str "x".toList]
    let next := w.performAll (values.map .writeValue)
    w.closed = false ∧ w.context.state = .tagName ∧ w.WritesSome values
      ∧ next.context.state = .tagName
      ∧ (next.writeTrusted ['>']).writer.context.element = none := by
  intro w values next
  have hopen : w.closed = false := by decide +kernel
  have hs : w.context.state = .tagName := by decide +kernel
  have hsent : (w.writeValue (.str "ipt".toList)).error = none := by decide +kernel
  have hsome : w.WritesSome values := .inl (Outcome.hadMemory_of_error_eq_none hsent)
  obtain ⟨hend, -⟩ := element_of_named_tag (reachable_startingWith "<scr".toList) hopen hs values
  exact ⟨hopen, hs, hsome, by decide +kernel, (hend hsome '>' rfl).1⟩

end Writer

end SafeMarkup
