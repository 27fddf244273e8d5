import SafeMarkup.Proofs.HeldMarkup

/-!
# What a text leaves open of the end of a comment

A comment in markup ends at `-->` or `--!>`. A text without a `>` does not end it, but it can end
in the start of such an end (`closerStart`), which is held back. A block comment in a script ends
at `*/`, or with the script at its end tag. Of the end tag only the letters matter, not their case
(`InContent.peek_append_congr`).
-/

namespace SafeMarkup

/-- The texts that can become the end of a comment, longest first. -/
def closerStarts : List Text := [['-', '-', '!'], ['-', '-'], ['-']]

/-- The start of a comment's end that the text ends with. -/
def closerStart (t : Text) : Text := (closerStarts.find? (·.isSuffixOf t)).getD []

/-- Unless the text as a whole is one, its first character does not matter. -/
theorem closerStart_cons {c : Char} {t : Text} (h : c :: t ∉ closerStarts) :
    closerStart (c :: t) = closerStart t := by
  have hsuffix (s : Text) (hs : s ∈ closerStarts) : s.isSuffixOf (c :: t) = s.isSuffixOf t := by
    rw [Bool.eq_iff_iff, List.isSuffixOf_iff_suffix, List.isSuffixOf_iff_suffix,
      List.suffix_cons_iff]
    refine ⟨fun hor => hor.resolve_left fun heq => h (heq ▸ hs), .inr⟩
  simp only [closerStart, closerStarts, List.find?_cons, List.find?_nil]
  rw [hsuffix _ (by simp [closerStarts]), hsuffix _ (by simp [closerStarts]),
    hsuffix _ (by simp [closerStarts])]

namespace Context

variable {ctx : Context} {t : Text}

/-! ### Comments in markup -/

/-- **What is held back of a text in a comment.** -/
theorem advance_comment (ht : '>' ∉ t) :
    (advance { state := .comment } false t).context = { state := .comment }
      ∧ (advance { state := .comment } false t).held = closerStart t := by
  -- unless all of the text is held back, its first character belongs to the comment
  induction t with
  | nil => exact ⟨rfl, rfl⟩
  | cons c t ih =>
    by_cases hmem : c :: t ∈ closerStarts
    · simp only [closerStarts, List.mem_cons, List.not_mem_nil, or_false] at hmem
      rcases hmem with h | h | h <;> cases h <;> exact ⟨rfl, rfl⟩
    · have hstep : step { state := .comment } false c t
          = .consumed { state := .comment } [c] 1 := by
        change stepComment { state := .comment } false c t = _
        simp only [stepComment]
        split <;> simp_all [closerStarts, Step.copy]
      rw [List.mem_cons, not_or] at ht
      rw [advance_consumed hstep, List.drop_zero, after_context, after_held,
        closerStart_cons hmem]
      exact ih ht.2

/-- The places in a comment that a text without a `>` can lead to, and what is held back there. The
opening of a comment is held back for as long as the comment can be over at once. -/
def commentPlaces : List (Context × Text) :=
  [({}, ['<', '!', '-', '-']), ({}, ['<', '!', '-', '-', '-']),
    ({ state := .comment }, []), ({ state := .comment }, ['-']),
    ({ state := .comment }, ['-', '-']), ({ state := .comment }, ['-', '-', '!'])]

/-- What is held back of a text in a comment, which may start with the opening of the comment. -/
def commentHeld (ctx : Context) (t : Text) : Text :=
  if ctx.state = .comment then closerStart t
  else if t.drop 4 = [] ∨ t.drop 4 = ['-'] then t
  else closerStart (t.drop 4)

theorem mem_commentPlaces_comment (ht : '>' ∉ t) :
    let p := advance { state := .comment } false t
    (p.context, p.held) ∈ commentPlaces ∧ p.held = commentHeld { state := .comment } t := by
  obtain ⟨hcontext, hheld⟩ := advance_comment ht
  refine ⟨?_, hheld⟩
  rw [hcontext, hheld, closerStart]
  cases hfind : closerStarts.find? (·.isSuffixOf t) with
  | none => decide
  | some start =>
    have hmem := List.mem_of_find?_eq_some hfind
    simp only [closerStarts, List.mem_cons, List.not_mem_nil, or_false] at hmem
    rcases hmem with rfl | rfl | rfl <;> decide

theorem mem_commentPlaces_opening (ht : '>' ∉ t) :
    let opened := '<' :: '!' :: '-' :: '-' :: t
    let p := advance {} false opened
    (p.context, p.held) ∈ commentPlaces ∧ p.held = commentHeld {} opened := by
  by_cases hshort : t = [] ∨ t = ['-']
  · rcases hshort with rfl | rfl <;> decide
  · have hheld : commentHeld {} ('<' :: '!' :: '-' :: '-' :: t)
        = commentHeld { state := .comment } t :=
      if_neg hshort
    dsimp only
    rw [advance_consumed (step_opening ht (.inr hshort)), after_context, after_held, hheld]
    exact mem_commentPlaces_comment ht

/-- What is held back tells the places apart. -/
theorem eq_of_mem_commentPlaces :
    ∀ p ∈ commentPlaces, ∀ q ∈ commentPlaces, p.2 = q.2 → p.1 = q.1 := by
  decide

/-- **The text after a comment's places tells them apart** as well: it ends the comment at one place
and not at the other. -/
theorem exists_peek_ne_of_mem_commentPlaces :
    ∀ p ∈ commentPlaces, ∀ q ∈ commentPlaces, p.2 ≠ q.2 →
      ∃ t ∈ [['>'], ['-', '>'], ['!', '>'], ['-', '!', '>']],
        p.1.peek (p.2 ++ t) ≠ q.1.peek (q.2 ++ t) := by
  decide

end Context

/-! ### End tags in block comments -/

namespace Html.Element

variable {element : Element} {a b t : Text}

/-- There is one start of an end tag of each length. -/
theorem StartsEndTag.lower_eq (ha : element.StartsEndTag a) (hb : element.StartsEndTag b)
    (h : a.length = b.length) : Text.lower a = Text.lower b := by
  have hlength : (Text.lower a).length = (Text.lower b).length := by
    rw [Text.length_lower, Text.length_lower, h]
  exact (List.prefix_of_prefix_length_le ha.isPrefix hb.isPrefix hlength.le).eq_of_length hlength

/-- The text after the start of an end tag completes it in any case of the letters. -/
theorem StartsEndTag.closes_append_iff (h : element.StartsEndTag a) :
    element.Closes (a ++ t) ↔ ∃ tag d rest, t = tag ++ d :: rest
      ∧ Text.lower a ++ Text.lower tag = '<' :: '/' :: element.tagName
      ∧ endsTagName d = true := by
  constructor
  · intro hcloses
    obtain ⟨tag, d, rest, heq, htag, hd⟩ := closes_iff_lower.mp hcloses
    have hlen := congrArg List.length htag
    simp only [Text.length_lower, List.length_cons] at hlen
    have hprefix : a <+: tag := List.prefix_of_prefix_length_le ⟨t, heq⟩ ⟨d :: rest, rfl⟩
      (by have := h.length_le; omega)
    obtain ⟨more, rfl⟩ := hprefix
    rw [List.append_assoc] at heq
    rw [Text.lower_append] at htag
    exact ⟨more, d, rest, List.append_cancel_left heq, htag, hd⟩
  · rintro ⟨tag, d, rest, rfl, htag, hd⟩
    exact closes_iff_lower.mpr
      ⟨a ++ tag, d, rest, by simp, by rw [Text.lower_append, htag], hd⟩

/-- Every start of an end tag can be completed. -/
theorem StartsEndTag.closes_completion (h : element.StartsEndTag a) :
    element.Closes (a ++ (('<' :: '/' :: element.tagName).drop a.length ++ ['>'])) := by
  have hlower : Text.lower ('<' :: '/' :: element.tagName) = '<' :: '/' :: element.tagName := by
    cases element <;> decide
  refine h.closes_append_iff.mpr ⟨_, '>', [], rfl, ?_, by decide⟩
  have hwhole := List.prefix_iff_eq_append.mp h.isPrefix
  rw [Text.length_lower] at hwhole
  have hdrop : Text.lower (('<' :: '/' :: element.tagName).drop a.length)
      = ('<' :: '/' :: element.tagName).drop a.length :=
    List.map_drop.trans (congrArg (List.drop a.length) hlower)
  rw [hdrop, hwhole]

/-- An end tag is longer than its name with the two characters before it. -/
theorem Closes.length_lt (h : element.Closes t) : element.tagName.length + 2 < t.length := by
  obtain ⟨tag, d, rest, rfl, htag, -⟩ := closes_iff_lower.mp h
  have hlen := congrArg List.length htag
  simp only [Text.length_lower, List.length_cons] at hlen
  rw [List.length_append, List.length_cons]
  omega

end Html.Element

namespace Context

variable {ctx ctx' : Context} {element : Html.Element} {a b t : Text}

/-- Whether a text ends in a `*` does not depend on the case of its letters. -/
theorem endsInStar_congr (h : Text.lower a = Text.lower b) :
    ctx.endsInStar a = ctx.endsInStar b := by
  have hlast := congrArg (·.getLast?) h
  simp only [Text.lower, List.getLast?_map] at hlast
  have hstar (c : Char) : (c == '*') = (c.toLower == '*') := by
    rw [Bool.eq_iff_iff, beq_iff_eq, beq_iff_eq]
    exact ⟨fun hc => by rw [hc]; rfl, fun hc => eq_of_toLower_eq hc (by decide)⟩
  have hmap (t : Text) : t.getLast?.map (· == '*')
      = (t.getLast?.map Char.toLower).map (· == '*') := by
    rw [Option.map_map]
    exact congrArg (Option.map · t.getLast?) (funext hstar)
  rw [endsInStar, endsInStar, hmap, hmap, hlast]

/-- Without a complete end tag the language has read what there is of it. -/
theorem InContent.peek_append (h : ctx.InContent element) (hend : element.hasEndTag = true)
    (ha : element.StartsEndTag a) (hopen : ¬ element.Closes (a ++ t)) :
    ctx.peek (a ++ t) = (ctx.feedAll a).peek t := by
  have hin := h.feedAll ['<']
  obtain ⟨s, rfl, hs⟩ := ha.exists_lt
  -- the `<` is one more character of the content, and the rest of `a` has none
  rw [List.cons_append] at hopen ⊢
  rw [Context.peek, advance_consumed (h.step_eq_feed hend hopen (.inl rfl)), after_context,
    List.drop_zero]
  change (ctx.feedAll ['<']).peek (s ++ t) = _
  rw [Context.peek_append, advance_content hin.delim hin.state hs]
  rfl

/-- **Only the letters of an end tag matter, not their case.** -/
theorem InContent.peek_append_congr (h : ctx.InContent element) (hend : element.hasEndTag = true)
    (ha : element.StartsEndTag a) (hb : element.StartsEndTag b)
    (hlower : Text.lower a = Text.lower b) (hfeed : ctx.feedAll a = ctx.feedAll b) (t : Text) :
    ctx.peek (a ++ t) = ctx.peek (b ++ t) := by
  have hiff : element.Closes (a ++ t) ↔ element.Closes (b ++ t) := by
    rw [ha.closes_append_iff, hb.closes_append_iff, hlower]
  -- either both are complete end tags, which end at the same character of `t`, or neither is one
  by_cases hcloses : element.Closes (a ++ t)
  · obtain ⟨tag, c, rest, rfl, htag, hc⟩ := ha.closes_append_iff.mp hcloses
    have htag' := htag
    rw [hlower, ← Text.lower_append] at htag'
    rw [← Text.lower_append] at htag
    rw [← List.append_assoc, ← List.append_assoc, h.peek_endTag hend htag hc,
      h.peek_endTag hend htag' hc]
  · rw [h.peek_append hend ha hcloses, h.peek_append hend hb (hiff.not.mp hcloses), hfeed]

/-- **The text that completes the longer of two starts of an end tag tells them apart.** -/
theorem InContent.exists_peek_ne (h : ctx.InContent element) (h' : ctx'.InContent element)
    (hend : element.hasEndTag = true) (ha : a = [] ∨ element.StartsEndTag a)
    (hb : element.StartsEndTag b) (hlen : a.length < b.length) :
    ∃ t, '<' ∉ t ∧ ctx.peek (a ++ t) ≠ ctx'.peek (b ++ t) := by
  let t := ('<' :: '/' :: element.tagName).drop b.length ++ ['>']
  have ht : '<' ∉ t := by
    obtain ⟨s, rfl, -⟩ := hb.exists_lt
    have hletters : '<' ∉ '/' :: element.tagName := by cases element <;> decide
    intro hmem
    rcases List.mem_append.mp hmem with hmem | hmem
    · exact hletters (List.mem_of_mem_drop hmem)
    · exact absurd hmem (by decide)
  -- `t` is what is missing after `b`, so there is too little of it after `a`
  have hshort : ¬ element.Closes (a ++ t) := by
    intro hcloses
    have hlt := hcloses.length_lt
    have hle := hb.length_le
    simp only [t, List.length_append, List.length_drop, List.length_cons, List.length_nil] at hlt
    omega
  have hin : (ctx.peek (a ++ t)).InContent element := by
    rcases ha with rfl | ha
    · exact h.peek ht
    · obtain ⟨s, rfl, hs⟩ := ha.exists_lt
      rw [List.cons_append] at hshort ⊢
      exact (inContent_peek_iff h hend (by simp [hs, ht])).mpr hshort
  have hnone : (ctx'.peek (b ++ t)).element = none := by
    have hcloses := hb.closes_completion
    obtain ⟨s, rfl, hs⟩ := hb.exists_lt
    exact h'.peek_closes hend (by simp [hs, ht]) hcloses
  refine ⟨t, ht, fun heq => ?_⟩
  rw [← heq, hin.element] at hnone
  cases hnone

end Context

end SafeMarkup
