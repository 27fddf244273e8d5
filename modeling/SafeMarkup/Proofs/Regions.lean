import SafeMarkup.Proofs.EndTags
import SafeMarkup.Proofs.ReachableContext

/-!
# Where values, contents and comments end

A `Region` is a piece of a document that markup around it ends: the value of an attribute, the
content of a special element, a comment. It ends at the first occurrence of its terminator and
nowhere else (`ends_at_first_terminator`), whatever the language inside makes of the text before
it, and however the text is cut. A terminator in a string or a comment of that language is one, and
no reference, no lookahead and no cut steps over one.
-/

namespace SafeMarkup

/-- A piece of a document that goes on until its terminator. -/
inductive Region where
  | value (delim : Delim)
  | content (element : Html.Element)
  | comment
  | bogusComment
  deriving DecidableEq, Repr

namespace Region

/-- `terminator` ends the region if `rest` comes after it. The content of `plaintext` has no
terminator. -/
inductive Ends : Region → Text → Text → Prop where
  | value (delim : Delim) (c : Char) (rest : Text) (hc : delim.endsAt c = true) :
      Ends (.value delim) [c] rest
  | content (element : Html.Element) (name : Text) (d : Char) (rest : Text)
      (hend : element.hasEndTag = true) (hname : Text.sameName name element.tagName = true)
      (hd : Html.endsTagName d = true) : Ends (.content element) ('<' :: '/' :: name) (d :: rest)
  | comment (rest : Text) : Ends .comment ['-', '-', '>'] rest
  | commentBang (rest : Text) : Ends .comment ['-', '-', '!', '>'] rest
  | bogusComment (rest : Text) : Ends .bogusComment ['>'] rest

/-- Does the region end at the start of `t`? -/
def EndsAt (region : Region) (t : Text) : Prop :=
  ∃ terminator rest, t = terminator ++ rest ∧ region.Ends terminator rest

/-- Does the region end somewhere in `t`? -/
def EndsIn (region : Region) (t : Text) : Prop :=
  ∃ before after, t = before ++ after ∧ region.EndsAt after

/-- In `before ++ (terminator ++ rest)` the region ends at `terminator`, and not before it. -/
structure FirstEnd (region : Region) (before terminator rest : Text) : Prop where
  ends : region.Ends terminator rest
  first : ∀ before' after, before' ++ after = before ++ (terminator ++ rest) →
    region.EndsAt after → before.length ≤ before'.length

variable {region : Region} {before terminator rest t : Text}

/-! ### Terminators -/

/-- Where a value ends, by its delimiter. -/
theorem endsAt_value {delim : Delim} :
    (value delim).EndsAt t ↔ ∃ c rest, t = c :: rest ∧ delim.endsAt c = true := by
  constructor
  · rintro ⟨_, rest, rfl, hends⟩
    cases hends with
    | value _ c _ hc => exact ⟨c, rest, rfl, hc⟩
  · rintro ⟨c, rest, rfl, hc⟩
    exact ⟨[c], rest, rfl, .value delim c rest hc⟩

/-- Where content ends, by the end tag. -/
theorem endsAt_content {element : Html.Element} :
    (content element).EndsAt t ↔ element.hasEndTag = true ∧ element.Closes t := by
  constructor
  · rintro ⟨_, _, rfl, hends⟩
    cases hends with
    | content _ name d rest hend hname hd => exact ⟨hend, name, d, rest, rfl, hname, hd⟩
  · rintro ⟨hend, name, d, rest, rfl, hname, hd⟩
    exact ⟨'<' :: '/' :: name, d :: rest, rfl, .content element name d rest hend hname hd⟩

/-- Where a comment ends. -/
theorem endsAt_comment :
    comment.EndsAt t
      ↔ ∃ rest, t = '-' :: '-' :: '>' :: rest ∨ t = '-' :: '-' :: '!' :: '>' :: rest := by
  constructor
  · rintro ⟨_, rest, rfl, hends⟩
    cases hends with
    | comment => exact ⟨rest, .inl rfl⟩
    | commentBang => exact ⟨rest, .inr rfl⟩
  · rintro ⟨rest, rfl | rfl⟩
    · exact ⟨['-', '-', '>'], rest, rfl, .comment rest⟩
    · exact ⟨['-', '-', '!', '>'], rest, rfl, .commentBang rest⟩

/-- Where ignored markup ends. -/
theorem endsAt_bogusComment : bogusComment.EndsAt t ↔ ∃ rest, t = '>' :: rest := by
  constructor
  · rintro ⟨_, rest, rfl, hends⟩
    cases hends with
    | bogusComment => exact ⟨rest, rfl⟩
  · rintro ⟨rest, rfl⟩
    exact ⟨['>'], rest, rfl, .bogusComment rest⟩

theorem EndsAt.endsIn (h : region.EndsAt t) : region.EndsIn t := ⟨[], t, rfl, h⟩

theorem EndsIn.append (h : region.EndsIn t) (before : Text) : region.EndsIn (before ++ t) := by
  obtain ⟨before', after, rfl, hat⟩ := h
  exact ⟨before ++ before', after, by rw [List.append_assoc], hat⟩

/-- More text after it does not undo an end. -/
theorem Ends.extend (h : region.Ends terminator rest) (more : Text) :
    region.Ends terminator (rest ++ more) := by
  cases h with
  | value delim c _ hc => exact .value delim c _ hc
  | content element name d rest hend hname hd =>
    exact .content element name d (rest ++ more) hend hname hd
  | comment => exact .comment _
  | commentBang => exact .commentBang _
  | bogusComment => exact .bogusComment _

/-- A region ends in one way only at the start of a text. -/
theorem Ends.unique {terminator' rest' : Text} (h : region.Ends terminator rest)
    (h' : region.Ends terminator' rest') (heq : terminator ++ rest = terminator' ++ rest') :
    terminator = terminator' ∧ rest = rest' := by
  refine List.append_inj heq ?_
  cases h with
  | value | bogusComment => cases h'; rfl
  | content element name _ _ _ hname =>
    cases h' with
    | content _ name' _ _ _ hname' =>
      simp only [List.length_cons]
      rw [Html.Element.length_of_sameName hname, Html.Element.length_of_sameName hname']
  | comment => cases h' <;> simp_all
  | commentBang => cases h' <;> simp_all

/-- A name has no `<`, so end tags do not overlap. -/
theorem lt_notMem_of_sameName {element : Html.Element} {name : Text}
    (h : Text.sameName name element.tagName = true) : '<' ∉ name := by
  have hlen := Html.Element.length_of_sameName h
  exact Html.Element.notMem_of_couldEnd (by decide) ((Html.Element.couldEnd_iff hlen).mpr h)
    (Nat.le_of_eq hlen)

/-- No terminator starts inside of another. -/
theorem Ends.not_endsAt_drop (h : region.Ends terminator rest) {k : Nat} (hpos : 0 < k)
    (hk : k < terminator.length) : ¬ region.EndsAt ((terminator ++ rest).drop k) := by
  obtain ⟨k, rfl⟩ := Nat.exists_eq_succ_of_ne_zero (Nat.ne_of_gt hpos)
  cases h with
  | value | bogusComment => simp at hk
  | content element name d rest _ hname =>
    -- an end tag has no second `<`
    rw [endsAt_content]
    rintro ⟨-, name', d', rest', heq, -⟩
    have hmem : '<' ∈ '/' :: name := by
      simp only [List.length_cons] at hk
      have hhead := congrArg List.head? heq
      rw [List.head?_drop, List.cons_append, List.getElem?_cons_succ,
        List.getElem?_append_left (by simp; omega)] at hhead
      exact List.mem_of_getElem? hhead
    rcases List.mem_cons.mp hmem with hslash | hmem
    · exact absurd hslash (by decide)
    · exact lt_notMem_of_sameName hname hmem
  | comment | commentBang =>
    rw [endsAt_comment]
    simp only [List.length_cons, List.length_nil] at hk
    rintro ⟨rest', heq⟩
    obtain rfl | rfl | rfl : k = 0 ∨ k = 1 ∨ k = 2 := by omega
    all_goals first | omega | simp at heq

/-! ### First ends -/

/-- Before the first terminator is complete there is none. -/
theorem FirstEnd.not_endsIn_of_prefix (h : region.FirstEnd before terminator rest) {shorter : Text}
    (hpre : shorter <+: before ++ (terminator ++ rest))
    (hlen : shorter.length < before.length + terminator.length) : ¬ region.EndsIn shorter := by
  rintro ⟨before', _, rfl, terminator', rest', rfl, hends⟩
  obtain ⟨more, heq⟩ := hpre
  rw [List.append_assoc, List.append_assoc] at heq
  have hextended := hends.extend more
  have hle := h.first before' _ heq ⟨terminator', rest' ++ more, rfl, hextended⟩
  -- the other terminator starts at or after the first one
  have hdrop : (terminator ++ rest).drop (before'.length - before.length)
      = terminator' ++ (rest' ++ more) := by
    have hdrop := congrArg (List.drop before'.length) heq
    rw [List.drop_left, List.drop_append, List.drop_eq_nil_of_le hle, List.nil_append] at hdrop
    exact hdrop.symm
  simp only [List.length_append] at hlen
  rcases Nat.eq_zero_or_pos (before'.length - before.length) with hzero | hpos
  · rw [hzero, List.drop_zero] at hdrop
    obtain ⟨rfl, -⟩ := h.ends.unique hextended hdrop
    omega
  · exact h.ends.not_endsAt_drop hpos (by omega) ⟨terminator', rest' ++ more, hdrop, hextended⟩

/-- What ends somewhere has a first end. -/
theorem exists_firstEnd (h : region.EndsIn t) :
    ∃ before terminator rest, t = before ++ (terminator ++ rest)
      ∧ region.FirstEnd before terminator rest := by
  -- on the text: if it does not start with a terminator, the first one is that of the rest
  induction t with
  | nil =>
    obtain ⟨before, after, heq, hat⟩ := h
    obtain ⟨-, rfl⟩ := List.append_eq_nil_iff.mp heq.symm
    obtain ⟨terminator, rest, heq, hends⟩ := hat
    exact ⟨[], terminator, rest, heq, hends, fun _ _ _ _ => Nat.zero_le _⟩
  | cons c t ih =>
    by_cases hat : region.EndsAt (c :: t)
    · obtain ⟨terminator, rest, heq, hends⟩ := hat
      exact ⟨[], terminator, rest, heq, hends, fun _ _ _ _ => Nat.zero_le _⟩
    have hlater : region.EndsIn t := by
      obtain ⟨before, after, heq, hat'⟩ := h
      rcases before with _ | ⟨d, before⟩
      · exact absurd (heq ▸ hat') hat
      · exact ⟨before, after, (List.cons.inj heq).2, hat'⟩
    obtain ⟨before, terminator, rest, rfl, hfirst⟩ := ih hlater
    refine ⟨c :: before, terminator, rest, rfl, hfirst.ends, fun before' after heq hat' => ?_⟩
    rcases before' with _ | ⟨d, before'⟩
    · obtain rfl : after = c :: (before ++ (terminator ++ rest)) := heq
      exact absurd hat' hat
    · exact Nat.succ_le_succ (hfirst.first before' after (List.cons.inj heq).2 hat')

theorem FirstEnd.drop {k : Nat} (h : region.FirstEnd before terminator rest)
    (hk : k ≤ before.length) : region.FirstEnd (before.drop k) terminator rest := by
  refine ⟨h.ends, fun before' after heq hat => ?_⟩
  have hle := h.first (before.take k ++ before') after
    (by rw [List.append_assoc, heq, ← List.append_assoc, List.take_append_drop]) hat
  simp only [List.length_append, List.length_take, List.length_drop] at hle ⊢
  omega

/-- A value ends first at the first character that ends it. -/
theorem firstEnd_value {delim : Delim} {c : Char} (hc : delim.endsAt c = true)
    (hbefore : ∀ d ∈ before, delim.endsAt d = false) :
    (value delim).FirstEnd before [c] rest := by
  refine ⟨.value delim c rest hc, fun before' after heq hat => Nat.le_of_not_lt fun hlt => ?_⟩
  obtain ⟨d, rest', rfl, hd⟩ := endsAt_value.mp hat
  have hget : before[before'.length]? = some d := by
    rw [← List.getElem?_append_left hlt, ← heq]
    simp
  rw [hbefore d (List.mem_of_getElem? hget)] at hd
  cases hd

end Region

namespace Context

/-- Is the cursor in this region? -/
inductive Inside (ctx : Context) : Region → Prop where
  | value (delim : Delim) (hd : ctx.delim = some delim) : Inside ctx (.value delim)
  | content (element : Html.Element) (hin : ctx.InContent element) : Inside ctx (.content element)
  | comment (hs : ctx.state = .comment) : Inside ctx .comment
  | bogusComment (hs : ctx.state = .bogusComment) : Inside ctx .bogusComment

/-- The context after the terminator of a region. -/
def exit (ctx : Context) : Region → Text → Context
  | .value delim, terminator =>
    if delim.isUnquoted ∧ terminator = ['>'] then ctx.closeTag else ctx.inTag
  | .content _, _ => { state := .tag }
  | .comment, _ | .bogusComment, _ => {}

/-- What a decision on the first `used` characters of `t` is in a region: the region goes on after
them, or they are its terminator. -/
inductive Passes (ctx : Context) (region : Region) (t : Text) (next : Context) (used : Nat) : Prop
    where
  | goesOn (hplace : ctx.SamePlace next) (hnot : ∀ k < used, ¬ region.EndsAt (t.drop k))
  | ends (terminator rest : Text) (ht : t = terminator ++ rest)
      (hends : region.Ends terminator rest) (hnext : next = ctx.exit region terminator)
      (hused : used = terminator.length)

/-- Follows a text that comes in pieces, after which the document may end with a last one. What is
held back of a piece is followed again with the next. -/
def follow (ctx : Context) (held : Text) : List Text → Option Text → Progress
  | [], none => ⟨ctx, [], held⟩
  | [], some text => ctx.advance true (held ++ text)
  | piece :: pieces, last? =>
    let p := ctx.advance false (held ++ piece)
    (p.context.follow p.held pieces last?).after p.written

variable {ctx next : Context} {region : Region} {last : Bool} {c : Char} {u : Nat}
  {before terminator rest t w : Text}

/-- A character that starts no terminator is passed within the region. -/
theorem Passes.one (hplace : ctx.SamePlace next) (hnot : ¬ region.EndsAt t) :
    ctx.Passes region t next 1 := by
  refine .goesOn hplace fun k hk => ?_
  obtain rfl : k = 0 := by omega
  exact hnot

/-! ### The region a context is in -/

/-- At the same place the cursor is in the same region. -/
theorem SamePlace.inside (h : ctx.SamePlace next) (hin : ctx.Inside region) :
    next.Inside region := by
  have hentry := h.entry
  cases hin with
  | value delim hd => exact .value delim (h.delim.trans hd)
  | content element hin =>
    exact .content element ⟨h.delim.trans hin.delim, h.element.trans hin.element,
      h.isContent.trans hin.state⟩
  | comment hs =>
    refine .comment ?_
    cases hs' : next.state <;> simp_all [State.entry]
  | bogusComment hs =>
    refine .bogusComment ?_
    cases hs' : next.state <;> simp_all [State.entry]

theorem SamePlace.exit_eq (h : ctx.SamePlace next) (region : Region) (terminator : Text) :
    next.exit region terminator = ctx.exit region terminator := by
  cases region <;> simp only [exit, closeTag, inTag, h.element]

/-- The end of a region is outside of it. -/
theorem not_inside_exit (ctx : Context) (region : Region) (terminator : Text) :
    ¬ (ctx.exit region terminator).Inside region := by
  intro hin
  cases hin with
  | value delim hd =>
    simp only [exit] at hd
    split at hd <;> cases hd
  | content element hin => cases hin.element
  | comment hs => cases hs
  | bogusComment hs => cases hs

/-- Comments are followed outside of values. -/
theorem WellFormed.delim_eq_none (h : ctx.WellFormed) (hs : ctx.state.isText = true) :
    ctx.delim = none := by
  rw [h.of_text hs]

/-! ### Decisions in values -/

/-- Only characters of references are passed together. -/
theorem passes_stepValueChar {delim : Delim} (hc : delim.endsAt c = false)
    (h : ctx.stepValueChar last c rest = .consumed next w u) :
    ctx.Passes (.value delim) (c :: rest) next u := by
  obtain ⟨d, hnext⟩ := next_of_stepValueChar h
  -- what is taken is the character, or a reference, which has no character that ends a value
  have hmem : ∀ e ∈ (c :: rest).take u, delim.endsAt e = false := by
    unfold stepValueChar stepChar Step.copy at h
    split at h
    · split at h
      · next length char hscan =>
        cases h
        obtain ⟨n, rfl⟩ := Nat.exists_eq_succ_of_ne_zero
          (Nat.ne_of_gt (Html.CharRef.scan_length hscan).1)
        intro e he
        rcases List.mem_cons.mp he with rfl | he
        · exact hc
        rcases Html.CharRef.mem_of_scan hscan e he with href | rfl
        · have hplain := delim.isPlain_of_isRefChar href
          simp only [Delim.isPlain, Bool.and_eq_true, Bool.not_eq_true'] at hplain
          exact hplain.1.1
        · cases delim <;> decide
      · cases h
      · cases h
        simpa using hc
    · cases h
      simpa using hc
  refine .goesOn (hnext ▸ samePlace_feed ctx d) fun k hk hat => ?_
  obtain ⟨e, after, hdrop, he⟩ := Region.endsAt_value.mp hat
  have hget : (c :: rest)[k]? = some e := by
    rw [← List.head?_drop, hdrop, List.head?_cons]
  rw [hmem e (List.mem_of_getElem? ((List.getElem?_take_of_lt hk).trans hget))] at he
  cases he

/-- A step in a value goes on within it, or ends it at its terminator. -/
theorem passes_value {delim : Delim} (hd : ctx.delim = some delim)
    (h : ctx.step last c rest = .consumed next w u) :
    ctx.Passes (.value delim) (c :: rest) next u := by
  -- a value ends with one character
  have ends {next : Context} (hc : delim.endsAt c = true)
      (hnext : next = ctx.exit (.value delim) [c]) :
      ctx.Passes (.value delim) (c :: rest) next 1 :=
    .ends [c] rest rfl (.value delim c rest hc) hnext rfl
  simp only [step, hd] at h
  -- each delimiter has its own terminators, and leads to the tag or out of it
  cases delim with
  | doubleQuote =>
    simp only [stepValue] at h
    split at h
    · next hc => cases h; exact ends (by simp [Delim.endsAt, hc]) rfl
    · next hc => exact passes_stepValueChar (by simp [Delim.endsAt, hc]) h
  | singleQuote =>
    simp only [stepValue] at h
    split at h
    · next hc => cases h; exact ends (by simp [Delim.endsAt, hc]) rfl
    · next hc => exact passes_stepValueChar (by simp [Delim.endsAt, hc]) h
  | spaceOrTagEnd =>
    simp only [stepValue] at h
    split at h
    · next hc =>
      cases h
      exact ends (by simp [Delim.endsAt, hc]) (by simp [exit, hc, Delim.isUnquoted])
    split at h
    · next hc hs => cases h; exact ends (by simp [Delim.endsAt, hs]) (by simp [exit, hc])
    · next hc hs => exact passes_stepValueChar (by simp [Delim.endsAt, hc, hs]) h
  | autoQuote =>
    simp only [stepValue] at h
    split at h
    · next hc =>
      cases h
      exact ends (by simp [Delim.endsAt, hc]) (by simp [exit, hc, Delim.isUnquoted])
    split at h
    · next hc hs => cases h; exact ends (by simp [Delim.endsAt, hs]) (by simp [exit, hc])
    next hc hs =>
      have hc : Delim.autoQuote.endsAt c = false := by simp [Delim.endsAt, hc, hs]
      split at h
      · cases h
        refine .one (samePlace_feed ctx c) fun hat => ?_
        obtain ⟨e, after, heq, he⟩ := Region.endsAt_value.mp hat
        obtain ⟨rfl, -⟩ := List.cons.inj heq
        rw [hc] at he
        cases he
      · exact passes_stepValueChar hc h

/-- What is undecided in a value is a reference, which does not end it. -/
theorem not_endsIn_value {delim : Delim} (hd : ctx.delim = some delim) (hu : ctx.Undecided t) :
    ¬ (Region.value delim).EndsIn t := by
  obtain ⟨rest, rfl, hopen⟩ := hu.exists_reference (by rw [hd]; rfl)
  rintro ⟨before, after, heq, hat⟩
  obtain ⟨c, rest', rfl, hc⟩ := Region.endsAt_value.mp hat
  have hmem : c ∈ '&' :: rest := by rw [heq]; simp
  rcases List.mem_cons.mp hmem with rfl | hmem
  · cases delim <;> exact absurd hc (by decide)
  · have hplain := delim.isPlain_of_isRefChar ((Html.CharRef.scan_incomplete hopen).1 c hmem)
    simp [Delim.isPlain, hc] at hplain

/-! ### Decisions in contents -/

theorem passes_content {element : Html.Element} (hin : ctx.InContent element)
    (h : ctx.step last c rest = .consumed next w u) :
    ctx.Passes (.content element) (c :: rest) next u := by
  have reads {d : Char} (hstep : ctx.stepChar d = .consumed next w u)
      (hnot : ¬ (Region.content element).EndsAt (c :: rest)) :
      ctx.Passes (.content element) (c :: rest) next u := by
    cases hstep
    exact .one (samePlace_feed ctx d) hnot
  -- only a `<` can start the terminator
  by_cases hlt : c = '<' ∧ element.hasEndTag = true
  · obtain ⟨rfl, hend⟩ := hlt
    rw [hin.step_lt hend] at h
    -- either the end tag is there, or the `<` is read as a character
    by_cases hclose : element.Closes ('<' :: rest)
    · obtain ⟨more, d, rest', rfl, hcould, hdrop, hd⟩ := Html.Element.closes_iff.mp hclose
      simp only [stepContentMarkup, hcould, and_self, ↓reduceIte, hdrop, hd, Step.copy] at h
      cases h
      obtain ⟨name, e, after, heq, hname, he⟩ := hclose
      have hlen := Html.Element.length_of_sameName hname
      refine .ends ('<' :: '/' :: name) (e :: after) heq
        (.content element name e after hend hname he) rfl ?_
      simp only [List.length_cons, hlen]
      omega
    · have hnot : ¬ (Region.content element).EndsAt ('<' :: rest) :=
        fun hat => hclose (Region.endsAt_content.mp hat).2
      rw [Html.Element.closes_iff] at hclose
      simp only [stepContentMarkup] at h
      split at h
      · split at h
        · exact reads h hnot
        · cases h
      split at h
      · next hcould =>
        obtain ⟨rfl, hcould⟩ := hcould
        split at h
        · split at h
          · exact reads h hnot
          · cases h
        · next d rest' hdrop =>
          rw [if_neg fun hd => hclose ⟨_, d, rest', rfl, hcould, hdrop, hd⟩] at h
          exact reads h hnot
      · exact reads h hnot
  · rw [step_isContent hin.delim hin.state, stepContent, hin.element] at h
    simp only [if_neg hlt] at h
    refine reads h fun hat => hlt ?_
    obtain ⟨hend, name, d, rest', heq, -⟩ := Region.endsAt_content.mp hat
    exact ⟨(List.cons.inj heq).1, hend⟩

/-- What is held back of an end tag is not yet one. -/
theorem not_endsIn_content {element : Html.Element} (hin : ctx.InContent element)
    (hu : ctx.Undecided t) : ¬ (Region.content element).EndsIn t := by
  rintro ⟨before, after, heq, hat⟩
  obtain ⟨hend, hclose⟩ := Region.endsAt_content.mp hat
  -- there is one `<` only, and the end tag after it is not complete
  obtain ⟨s, rfl, hs⟩ := hin.undecided hu
  rcases before with _ | ⟨b, before⟩
  · rw [List.nil_append] at heq
    subst heq
    have hstep := hu.step
    obtain ⟨more, d, rest, rfl, hcould, hdrop, hd⟩ := Html.Element.closes_iff.mp hclose
    rw [hin.step_lt hend] at hstep
    simp [stepContentMarkup, hcould, hdrop, hd, Step.copy] at hstep
  · obtain ⟨name, d, rest, rfl, -⟩ := hclose
    rw [(List.cons.inj heq).2] at hs
    exact hs (by simp)

/-! ### Decisions in comments -/

theorem passes_comment (hw : ctx.WellFormed) (hs : ctx.state = .comment)
    (h : ctx.step last c rest = .consumed next w u) :
    ctx.Passes .comment (c :: rest) next u := by
  have heq := hw.of_text (by rw [hs]; rfl)
  rw [hs] at heq
  subst heq
  simp only [step, stepComment, Step.copy] at h
  -- the two ends, the three starts of them, and any other character
  split at h
  · next heq => cases h; rw [heq]; exact .ends _ _ rfl (.comment _) rfl rfl
  · next heq => cases h; rw [heq]; exact .ends _ _ rfl (.commentBang _) rfl rfl
  · next heq => split at h <;> cases h; exact .one .refl (by rw [heq, Region.endsAt_comment]; simp)
  · next heq => split at h <;> cases h; exact .one .refl (by rw [heq, Region.endsAt_comment]; simp)
  · next heq => split at h <;> cases h; exact .one .refl (by rw [heq, Region.endsAt_comment]; simp)
  · next hclose hbang _ _ _ =>
    cases h
    refine .one .refl fun hat => ?_
    obtain ⟨rest', heq | heq⟩ := Region.endsAt_comment.mp hat
    · exact hclose _ heq
    · exact hbang _ heq

theorem passes_bogusComment (hw : ctx.WellFormed) (hs : ctx.state = .bogusComment)
    (h : ctx.step last c rest = .consumed next w u) :
    ctx.Passes .bogusComment (c :: rest) next u := by
  have heq := hw.of_text (by rw [hs]; rfl)
  rw [hs] at heq
  subst heq
  simp only [step, stepBogusComment] at h
  cases h
  split
  · next hc => exact .ends [c] rest rfl (hc ▸ .bogusComment rest) rfl rfl
  · next hc =>
    refine .one .refl fun hat => ?_
    obtain ⟨rest', heq⟩ := Region.endsAt_bogusComment.mp hat
    exact hc (List.cons.inj heq).1

/-! ### Decisions in any region -/

/-- **A decision in a region passes no terminator but as one.** -/
theorem passes_of_step (hw : ctx.WellFormed) (hin : ctx.Inside region)
    (h : ctx.step last c rest = .consumed next w u) : ctx.Passes region (c :: rest) next u := by
  cases hin with
  | value delim hd => exact passes_value hd h
  | content element hin => exact passes_content hin h
  | comment hs => exact passes_comment hw hs h
  | bogusComment hs => exact passes_bogusComment hw hs h

/-- **What is held back in a region does not end it.** -/
theorem not_endsIn_of_blocked (hw : ctx.WellFormed) (hin : ctx.Inside region)
    (h : ctx.step last c rest = .blocked next) : next = ctx ∧ ¬ region.EndsIn (c :: rest) := by
  obtain ⟨-, hclearer, hu, -⟩ := blocked_of_step h
  have hnext : next = ctx := by
    cases hclearer with
    | same => rfl
    | tag hd hs | value hd hs =>
      cases hin with
      | value _ hd' => rw [hd'] at hd; cases hd
      | content _ hin =>
        have hstate := hin.state
        rw [hs] at hstate
        cases hstate
      | comment hs' => rw [hs'] at hs; cases hs
      | bogusComment hs' => rw [hs'] at hs; cases hs
  subst hnext
  refine ⟨rfl, ?_⟩
  cases hin with
  | value delim hd => exact not_endsIn_value hd hu
  | content element hin => exact not_endsIn_content hin hu
  | comment hs =>
    cases hu with
    | commentEnd _ _ _ ht =>
      rintro ⟨before, after, heq, hat⟩
      -- the shortest terminator is longer than what is held back
      have hlen : (c :: rest).length ≤ 3 ∧ '>' ∉ c :: rest := by
        simp only [List.mem_cons, List.not_mem_nil, or_false] at ht
        rcases ht with ht | ht | ht <;> rw [ht] <;> exact ⟨by decide, by decide⟩
      rw [heq] at hlen
      obtain ⟨rest', rfl | rfl⟩ := Region.endsAt_comment.mp hat <;> exact hlen.2 (by simp)
    | markup _ _ hs' | name _ _ _ hs' => rw [hs] at hs'; cases hs'
    | reference _ hd => rw [hw.delim_eq_none (by rw [hs]; rfl)] at hd; cases hd
    | contentEnd _ _ _ hs' => rw [hs] at hs'; cases hs'
  | bogusComment hs =>
    simp [step, hw.delim_eq_none (by rw [hs]; rfl), hs, stepBogusComment] at h

/-! ### Texts -/

/-- What is left after a decision. -/
theorem drop_pred (hu : 0 < u) : rest.drop (u - 1) = (c :: rest).drop u := by
  obtain ⟨n, rfl⟩ := Nat.exists_eq_succ_of_ne_zero (Nat.ne_of_gt hu)
  rfl

/-- **Without a terminator a region goes on.** -/
theorem samePlace_advance (hw : ctx.WellFormed) (hin : ctx.Inside region)
    (ht : ¬ region.EndsIn t) : ctx.SamePlace (ctx.advance last t).context := by
  induction ctx, t using advance_induction last with
  | nil => exact .refl
  | consumed ctx c rest next w u hstep ih =>
    rw [advance_consumed hstep]
    cases passes_of_step hw hin hstep with
    -- a terminator in the rest would be one in the text
    | goesOn hplace _ =>
      have hnext := hw.of_next (next_of_step hstep)
      refine hplace.trans (ih hnext (hplace.inside hin) fun hends => ht ?_)
      rw [drop_pred (used_of_step hstep).1] at hends
      have hall := hends.append ((c :: rest).take u)
      rwa [List.take_append_drop] at hall
    | ends terminator rest' heq hends =>
      exact absurd (Region.EndsAt.endsIn ⟨terminator, rest', heq, hends⟩) ht
  | blocked ctx c rest next hstep =>
    obtain ⟨rfl, -⟩ := not_endsIn_of_blocked hw hin hstep
    rw [advance_blocked hstep]
    exact .refl

/-- **A region is left at its first terminator.** -/
theorem advance_firstEnd (last : Bool) (hw : ctx.WellFormed) (hin : ctx.Inside region)
    (hfirst : region.FirstEnd before terminator rest) :
    ∃ w, ctx.advance last (before ++ (terminator ++ rest))
      = ((ctx.exit region terminator).advance last rest).after w := by
  generalize ht : before ++ (terminator ++ rest) = t
  induction ctx, t using advance_induction last generalizing before with
  | nil ctx =>
    cases hfirst.ends <;> simp at ht
  | consumed ctx c more next w u hstep ih =>
    have hpos := (used_of_step hstep).1
    rw [advance_consumed hstep, drop_pred (c := c) hpos]
    cases passes_of_step hw hin hstep with
    | goesOn hplace hnot =>
      -- the first terminator comes after the decided characters
      have hu : u ≤ before.length := by
        refine Nat.le_of_not_lt fun hlt => hnot _ hlt ⟨terminator, rest, ?_, hfirst.ends⟩
        rw [← ht, List.drop_left]
      have hdrop : before.drop u ++ (terminator ++ rest) = (c :: more).drop u := by
        rw [← ht, List.drop_append_of_le_length hu]
      obtain ⟨w', hw'⟩ := ih (hw.of_next (next_of_step hstep)) (hplace.inside hin)
        (hfirst.drop hu) (by rw [drop_pred hpos, hdrop])
      refine ⟨w ++ w', ?_⟩
      rw [← drop_pred hpos, hw', after_after, hplace.exit_eq]
    | ends terminator' rest' heq hends hnext hused =>
      have hnil : before = [] := by
        have hle := hfirst.first [] (c :: more) ht.symm ⟨terminator', rest', heq, hends⟩
        exact List.eq_nil_of_length_eq_zero (Nat.le_zero.mp hle)
      subst hnil
      obtain ⟨rfl, rfl⟩ := hfirst.ends.unique hends (ht.trans heq)
      exact ⟨w, by rw [hnext, hused, heq, List.drop_left]⟩
  | blocked ctx c more next hstep =>
    have hnot := (not_endsIn_of_blocked hw hin hstep).2
    exact absurd ⟨before, _, ht.symm, terminator, rest, rfl, hfirst.ends⟩ hnot

/-! ### Pieces of a text -/

/-- **It does not matter how a text is cut.** -/
theorem follow_eq (pieces : List Text) (last? : Option Text) {held : Text}
    (hheld : ctx.advance false held = ⟨ctx, [], held⟩) :
    ctx.follow held pieces last?
      = ctx.advance last?.isSome (held ++ (pieces.flatten ++ last?.getD [])) := by
  -- on the pieces, with the held back text of the ones before in front
  induction pieces generalizing ctx held with
  | nil =>
    cases last? with
    | none => simp [follow, hheld]
    | some text => simp [follow]
  | cons piece pieces ih =>
    -- what is held back is held back again when it is followed once more
    have hagain : (ctx.advance false (held ++ piece)).context.advance false
        (ctx.advance false (held ++ piece)).held
        = ⟨(ctx.advance false (held ++ piece)).context, [],
            (ctx.advance false (held ++ piece)).held⟩ := by
      rcases held_of_advance ctx false (held ++ piece) with hnone | ⟨-, hu⟩
      · rw [hnone]
        rfl
      · exact hu.advance
    rw [follow, ih hagain, List.flatten_cons, List.append_assoc, ← List.append_assoc held]
    exact (advance_append ctx _ (held ++ piece) _).symm

/-- **Regions end at their first terminator.** However a text after a reachable context is cut,
and whether or not the document ends with it: as long as the text has no terminator of the region
that the cursor is in, the cursor stays there. At the first terminator it leaves, and the rest of
the text is followed from outside. -/
theorem ends_at_first_terminator (h : ctx.Reachable) (hin : ctx.Inside region)
    (pieces : List Text) (last? : Option Text) :
    let t := pieces.flatten ++ last?.getD []
    let p := ctx.follow [] pieces last?
    (¬ region.EndsIn t → ctx.SamePlace p.context ∧ p.context.Inside region)
      ∧ (region.EndsIn t → ∃ before terminator rest, t = before ++ (terminator ++ rest)
        ∧ region.FirstEnd before terminator rest)
      ∧ (∀ before terminator rest, t = before ++ (terminator ++ rest) →
        region.FirstEnd before terminator rest →
          (∀ shorter, shorter <+: t → shorter.length < before.length + terminator.length →
            ¬ region.EndsIn shorter)
          ∧ ¬ (ctx.exit region terminator).Inside region
          ∧ p.context = ((ctx.exit region terminator).advance last?.isSome rest).context
          ∧ p.held = ((ctx.exit region terminator).advance last?.isSome rest).held)
      ∧ (region = .content .plaintext → ¬ region.EndsIn t) := by
  intro t p
  -- the pieces are followed as the text as a whole is
  have hp : p = ctx.advance last?.isSome t := follow_eq pieces last? (advance_nil ctx false)
  refine ⟨fun ht => ?_, Region.exists_firstEnd, fun before terminator rest ht hfirst => ?_, ?_⟩
  · have hplace : ctx.SamePlace p.context := hp ▸ samePlace_advance h.wellFormed hin ht
    exact ⟨hplace, hplace.inside hin⟩
  · obtain ⟨w, hw⟩ := advance_firstEnd last?.isSome h.wellFormed hin hfirst
    rw [hp, ht, hw]
    exact ⟨fun shorter => hfirst.not_endsIn_of_prefix, not_inside_exit ctx region terminator,
      rfl, rfl⟩
  · rintro rfl ⟨before, after, -, hat⟩
    cases (Region.endsAt_content.mp hat).1

/-- A reference that is cut stands for a quote that ends nothing; the quote in the string and after
the backslash ends the value all the same. -/
theorem quote_ends_value :
    let ctx := (advance {} false "<a onclick='f(\"\\".toList).context
    let p := ctx.follow [] ["&#3".toList, "9;\\".toList] (some "' b".toList)
    ctx.Reachable ∧ ctx.Inside (.value .singleQuote)
      ∧ (Region.value .singleQuote).FirstEnd "&#39;\\".toList "'".toList " b".toList
      ∧ p.context = ((ctx.exit (.value .singleQuote) "'".toList).advance true " b".toList).context
      ∧ p.context = { state := .attrName, attr := some .plain } := by
  intro ctx p
  have h : ctx.Reachable := .advance _ .start false _
  have hin : ctx.Inside (.value .singleQuote) := .value _ (by decide +kernel)
  have hall : "&#39;\\".toList.all (!Delim.singleQuote.endsAt ·) = true := by decide
  have hfirst : (Region.value .singleQuote).FirstEnd "&#39;\\".toList "'".toList " b".toList :=
    Region.firstEnd_value rfl fun d hd => by simpa using List.all_eq_true.mp hall d hd
  obtain ⟨-, -, hends, -⟩ := ends_at_first_terminator h hin ["&#3".toList, "9;\\".toList]
    (some "' b".toList)
  obtain ⟨-, -, hcontext, -⟩ := hends _ _ _ (by decide) hfirst
  exact ⟨h, hin, hfirst, hcontext, by decide +kernel⟩

end Context

end SafeMarkup
