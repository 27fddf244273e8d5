import SafeMarkup.Proofs.ByteSteps

/-!
# Following a text by its bytes

A step on bytes always has a result. It decides on whole characters, of which there is at least one,
or it is blocked as the step on characters is (`correct_step`). So following a text by its bytes
comes to an end, with the result that following it by its characters has, and what is left undecided
is counted in bytes (`advance_eq`).
-/

namespace SafeMarkup

namespace Context

open Text Html

variable {ctx next : Context} {last : Bool} {c : Char} {a rest input z : Text}

/-- Text of single characters that leave the context as it is. -/
theorem advance_run (ha : ∀ d ∈ a, ∀ rest, ctx.step last d rest = .consumed ctx [d] 1) (z : Text) :
    ctx.advance last (a ++ z) = (ctx.advance last z).after a := by
  induction a with
  | nil => rfl
  | cons d a ih =>
    obtain ⟨hd, ha⟩ := List.forall_mem_cons.mp ha
    rw [List.cons_append, advance_consumed (hd _), Nat.sub_self, List.drop_zero, ih ha, after_after]
    rfl

theorem advance_all (ha : ∀ d ∈ a, ∀ rest, ctx.step last d rest = .consumed ctx [d] 1) :
    ctx.advance last a = ⟨ctx, a, []⟩ := by
  have hread := advance_run ha []
  rw [List.append_nil, advance_nil] at hread
  rw [hread, Progress.after, List.append_nil]

namespace Bytes

/-- What a step on the bytes of a text may do: it goes on as following the characters does. -/
inductive Agrees (ctx : Context) (last : Bool) : Text → Step → Prop where
  /-- It decides on `a`, which is at least one character. -/
  | consumed (next : Context) (a z written : Text) (ha : a ≠ [])
      (h : ctx.advance last (a ++ z) = (next.advance last z).after written) :
      Agrees ctx last (a ++ z) (.consumed next written (utf8Size a))
  | blocked (next : Context) (input : Text) (hlast : last = false)
      (h : ctx.advance last input = ⟨next, [], input⟩) : Agrees ctx last input (.blocked next)

/-- A step on bytes has a result, and it agrees with following the characters. -/
def Correct (ctx : Context) (last : Bool) (input : Text) (step? : Option Step) : Prop :=
  ∃ step, step? = some step ∧ Agrees ctx last input step

/-- A step on characters, counted in bytes. -/
theorem correct_one {step : Step} {step? : Option Step} (hstep : ctx.step last c rest = step)
    (h : step? = some (step.inBytes (c :: rest))) : Correct ctx last (c :: rest) step? := by
  refine ⟨_, h, ?_⟩
  cases step with
  | consumed next written used =>
    obtain ⟨hpos, hle⟩ := used_of_step hstep
    have hsplit : (c :: rest).take used ++ (c :: rest).drop used = c :: rest :=
      List.take_append_drop used (c :: rest)
    have hdrop : rest.drop (used - 1) = (c :: rest).drop used := by
      obtain ⟨n, rfl⟩ := Nat.exists_eq_succ_of_ne_zero (Nat.ne_of_gt hpos)
      rfl
    have hne : (c :: rest).take used ≠ [] := by
      rw [List.take_cons hpos]
      exact List.cons_ne_nil _ _
    have hread : ctx.advance last ((c :: rest).take used ++ (c :: rest).drop used)
        = (next.advance last ((c :: rest).drop used)).after written := by
      rw [hsplit, advance_consumed hstep, hdrop]
    have hagrees := Agrees.consumed next _ _ written hne hread
    rwa [hsplit] at hagrees
  | blocked next =>
    exact .blocked next _ (blocked_of_step hstep).1 (advance_blocked hstep)

theorem correct_emit (ha : a ≠ [])
    (h : ctx.advance last (a ++ z) = (next.advance last z).after a) :
    Correct ctx last (a ++ z) (emit next (a ++ z) (utf8Size a)) :=
  ⟨_, emit_append next a z, .consumed next a z a ha h⟩

/-- A slice that is written as it is, up to the end of the text. -/
theorem correct_emit_all (hinput : input ≠ [])
    (h : ctx.advance last input = ⟨next, input, []⟩) :
    Correct ctx last input (emit next input (utf8Size input)) := by
  have hread : ctx.advance last (input ++ []) = (next.advance last []).after input := by
    rw [List.append_nil, h, advance_nil]
    simp [Progress.after]
  have hemit := correct_emit hinput hread
  rwa [List.append_nil] at hemit

/-- **A run in one piece.** -/
theorem correct_emitRun {ends : Char → Bool} (hends : AsciiOnly ends) {here : Option Step}
    (hplain : ∀ d, ends d = false → ∀ rest, ctx.step last d rest = .consumed ctx [d] 1)
    (hhere : ends c = true → Correct ctx last (c :: rest) here) :
    Correct ctx last (c :: rest) (emitRun ctx ends (c :: rest) here) := by
  -- the first byte that could end the run starts a character that does, since those are ASCII
  rw [emitRun]
  generalize hinput : c :: rest = input at *
  cases stop ends input with
  | found a d z ha hd =>
    rw [findIdx?_byteView hends ha hd]
    cases a with
    | nil =>
      cases hinput
      exact hhere hd
    | cons e a =>
      obtain ⟨n, hn⟩ := Nat.exists_eq_succ_of_ne_zero
        (Nat.ne_of_gt (utf8Size_pos (List.cons_ne_nil e a)))
      have hemit := correct_emit (List.cons_ne_nil e a)
        (advance_run (fun d hd => hplain d (ha d hd)) (d :: z))
      rw [hn] at hemit ⊢
      exact hemit
  | absent _ hnone =>
    rw [findIdx?_byteView_eq_none hends hnone]
    exact correct_emit_all (hinput ▸ List.cons_ne_nil c rest)
      (advance_all fun d hd => hplain d (hnone d hd))

/-! ### All places -/

/-- Outside a tag the bytes up to the next `<` are written in one piece. -/
theorem correct_text (hd : ctx.delim = none) (hs : ctx.state = .text) :
    Correct ctx last (c :: rest) (text ctx last (c :: rest)) := by
  apply correct_emitRun (asciiOnly_eq (by decide))
  · intro d hd' rest
    simp only [beq_eq_false_iff_ne, ne_eq] at hd'
    simp [Context.step, hd, hs, stepText, hd']
  · intro hc
    rw [eq_of_beq hc]
    exact correct_one (by simp [Context.step, hd, hs, stepText]) (markup_cons ctx last rest)

/-- The rest of a name that was written in parts, up to the character that ends it. -/
theorem correct_partialTagName (hd : ctx.delim = none) (hs : ctx.state = .tagName) :
    Correct ctx last (c :: rest) (partialTagName ctx last (c :: rest)) := by
  apply correct_emitRun asciiOnly_endsTagName
  · intro d hd' rest
    simp [Context.step, hd, hs, stepPartialTagName, hd']
  · intro hc
    exact correct_one (by simp [Context.step, hd, hs, stepPartialTagName, hc])
      (tag_cons { state := .tag } last c rest)

/-- The rest of an attribute name, up to the character that ends it. -/
theorem correct_partialAttrName (hd : ctx.delim = none) (hs : ctx.state = .attrName) :
    Correct ctx last (c :: rest) (partialAttrName ctx last (c :: rest)) := by
  apply correct_emitRun asciiOnly_endsAttrName
  · intro d hd' rest
    simp [Context.step, hd, hs, stepPartialAttrName, hd']
  · intro hc
    exact correct_one (by simp [Context.step, hd, hs, stepPartialAttrName, hc])
      (afterName_cons { ctx with state := .afterName } last c rest)

/-- A comment is written in one piece up to the next dash, which is looked at on its own. -/
theorem correct_comment (hd : ctx.delim = none) (hs : ctx.state = .comment) :
    Correct ctx last (c :: rest) (comment ctx last (c :: rest)) := by
  apply correct_emitRun (asciiOnly_eq (by decide))
  · intro d hd' rest
    have hne : d ≠ '-' := by simpa using hd'
    have hstep : ctx.step last d rest = ctx.stepComment last d rest := by
      simp only [Context.step, hd, hs]
    -- no dash in front, so neither an end of the comment nor the start of one
    have hprefix {a : Text} : ¬ '-' :: a <+: d :: rest := by
      rw [List.cons_prefix_cons]
      exact fun h => hne h.1.symm
    have hprefix' {a : Text} : ¬ d :: rest <+: '-' :: a := by
      rw [List.cons_prefix_cons]
      exact fun h => hne h.1
    have hclose := hprefix (a := "->".toList)
    have hclose' := hprefix (a := "-!>".toList)
    rw [hstep, stepComment_plain hclose hclose' fun h => h.2.elim hprefix' hprefix']
    rfl
  · intro hc
    rw [eq_of_beq hc]
    exact correct_one (by simp only [Context.step, hd, hs]) (commentEnd_dash ctx last rest)

/-- A bogus comment is written in one piece, with the `>` that ends it. -/
theorem correct_bogusComment (hd : ctx.delim = none) (hs : ctx.state = .bogusComment) :
    Correct ctx last (c :: rest) (bogusComment ctx (c :: rest)) := by
  have hstep (d : Char) (rest : Text) :
      ctx.step last d rest = ctx.stepBogusComment d := by
    simp [Context.step, hd, hs]
  have hplain (d : Char) (hd : (d == '>') = false) (rest : Text) :
      ctx.step last d rest = .consumed ctx [d] 1 := by
    rw [hstep, stepBogusComment, if_neg (by simpa using hd)]
  rw [bogusComment]
  generalize hinput : c :: rest = input
  cases stop (· == '>') input with
  | found a d z ha hd =>
    have hd' : d = '>' := eq_of_beq hd
    subst hd'
    -- the slice goes one byte further than the scan: the `>` belongs to the comment
    have hsize : utf8Size a + 1 = utf8Size (a ++ ['>']) := by
      rw [utf8Size_append]
      rfl
    have hread : ctx.advance last (a ++ ['>'] ++ z)
        = (Context.advance { ctx with state := .text } last z).after (a ++ ['>']) := by
      have hend : ctx.step last '>' z = .consumed { ctx with state := .text } ['>'] 1 := hstep '>' z
      rw [List.append_assoc, advance_run (fun d hd => hplain d (ha d hd))]
      rw [List.singleton_append, advance_consumed hend, after_after]
      rfl
    rw [findIdx?_byteView (asciiOnly_eq (by decide)) ha hd]
    dsimp only
    rw [hsize, List.append_cons]
    exact correct_emit (by simp) hread
  | absent _ hnone =>
    rw [findIdx?_byteView_eq_none (asciiOnly_eq (by decide)) hnone]
    exact correct_emit_all (hinput ▸ List.cons_ne_nil c rest)
      (advance_all fun d hd => hplain d (hnone d hd))

/-- Content that is no code is written in one piece, up to a `<` if that can matter; code is looked
at character by character. -/
theorem correct_contentText {hasEndTag : Bool} (hc : hasEndTag = true → c ≠ '<')
    (hplain : ∀ d, (hasEndTag = true → d ≠ '<') → ∀ rest, ctx.step last d rest = ctx.stepChar d) :
    Correct ctx last (c :: rest) (contentText ctx hasEndTag (c :: rest)) := by
  rw [contentText]
  split
  · next hs =>
    have hcopy (d : Char) (hd : hasEndTag = true → d ≠ '<') (rest : Text) :
        ctx.step last d rest = .consumed ctx [d] 1 := by
      have hfeed : ctx.feed d = ctx := by simp only [feed, hs]
      rw [hplain d hd, stepChar, hfeed]
    have hall (h : ∀ d ∈ rest, hasEndTag = true → d ≠ '<') :
        ctx.advance last (c :: rest) = ⟨ctx, c :: rest, []⟩ :=
      advance_all (List.forall_mem_cons.mpr ⟨hcopy c hc, fun d hd => hcopy d (h d hd)⟩)
    -- the scan starts after the first byte, and the first character is not a `<` that matters
    rw [sliceFrom?_one]
    simp only [Option.bind_eq_bind, Option.bind_some]
    cases stop (· == '<') rest with
    | found a d z ha hd =>
      have hpos := utf8Size_pos (List.cons_ne_nil c a)
      rw [← List.cons_append, findIdx?_drop_byteView (asciiOnly_eq (by decide)) ha hd]
      cases hasEndTag with
      | false => exact correct_emit_all (List.cons_ne_nil c _) (hall fun _ _ h => by cases h)
      -- the slice stops before the `<`
      | true =>
        have hsize : utf8Size (c :: a) - 1 + 1 = utf8Size (c :: a) := by omega
        have hrun : ∀ d ∈ c :: a, ∀ more, ctx.step last d more = .consumed ctx [d] 1 :=
          List.forall_mem_cons.mpr
            ⟨hcopy c hc, fun e he => hcopy e fun _ => by simpa using ha e he⟩
        dsimp only
        rw [if_pos rfl, hsize]
        exact correct_emit (List.cons_ne_nil c a) (advance_run hrun (d :: z))
    | absent _ hnone =>
      rw [findIdx?_drop_byteView_eq_none (asciiOnly_eq (by decide)) hnone]
      exact correct_emit_all (List.cons_ne_nil c rest)
        (hall fun d hd _ => by simpa using hnone d hd)
  · exact correct_one (hplain c hc rest) (emitChar_cons ctx c rest)

/-- The content of an element looks for the end tag only where there can be one. -/
theorem correct_content (hd : ctx.delim = none) (hs : ctx.state.isContent = true) :
    Correct ctx last (c :: rest) (content ctx last (c :: rest)) := by
  have hstep (d : Char) (rest : Text) : ctx.step last d rest = ctx.stepContent last d rest :=
    step_isContent hd hs
  rw [content]
  cases he : ctx.element with
  | none =>
    apply correct_contentText (by simp)
    intro d _ rest
    rw [hstep, stepContent, he]
  | some element =>
    dsimp only
    cases hend : element.hasEndTag with
    | false =>
      apply correct_contentText (by simp)
      intro d _ rest
      simp [hstep, stepContent, he, hend]
    | true =>
      obtain ⟨b, hfirst, hb⟩ := exists_first_byte c rest
      simp only [if_true, hfirst, Option.bind_eq_bind, Option.bind_some,
        hb.eq_iff (d := '<') (by decide)]
      split
      · -- a `<` is left to the steps on characters
        next hc =>
        subst hc
        exact correct_one (by simp [hstep, stepContent, he, hend])
          (contentMarkup_cons ctx element last rest)
      · next hc =>
        apply correct_contentText fun _ => hc
        intro d hd rest
        simp [hstep, stepContent, he, hd rfl]

/-- **Every step on bytes has a result**, and it agrees with the steps on characters. -/
theorem correct_step (ctx : Context) (last : Bool) (c : Char) (rest : Text) :
    Correct ctx last (c :: rest) (step ctx last (c :: rest)) := by
  cases hd : ctx.delim with
  | some delim =>
    simp only [step, hd]
    exact correct_one (by simp only [Context.step, hd]) (value_cons ctx delim last c rest)
  | none =>
    have hcontent (hs : ctx.state.isContent = true) :
        Correct ctx last (c :: rest) (content ctx last (c :: rest)) := correct_content hd hs
    simp only [step, hd]
    cases hs : ctx.state with
    | text => exact correct_text hd hs
    | tagName => exact correct_partialTagName hd hs
    | tag => exact correct_one (by simp only [Context.step, hd, hs]) (tag_cons ctx last c rest)
    | attrName => exact correct_partialAttrName hd hs
    | afterName =>
      exact correct_one (by simp only [Context.step, hd, hs]) (afterName_cons ctx last c rest)
    | beforeValue =>
      exact correct_one (by simp only [Context.step, hd, hs]) (beforeValue_cons ctx last c rest)
    | comment => exact correct_comment hd hs
    | bogusComment => exact correct_bogusComment hd hs
    | plainValue | url | js | css | rcdata => exact hcontent (by rw [hs]; rfl)

/-! ### The loop -/

/-- The same progress, with what is held back counted in bytes. -/
def Position.ofProgress (p : Progress) : Position := ⟨p.context, p.written, utf8Size p.held⟩

/-- From a position between two characters the loop does what is to be done with the rest. -/
theorem advanceFrom_eq (last : Bool) (input before : Text) (h : input = before ++ rest)
    (ctx : Context) :
    advanceFrom last input ctx (utf8Size before)
      = some (.ofProgress (ctx.advance last rest)) := by
  -- a step decides on at least one character of what is left
  induction hn : rest.length using Nat.strong_induction_on generalizing before rest ctx with
  | _ n ih =>
    have hsize : utf8Size input = utf8Size before + utf8Size rest := by rw [h, utf8Size_append]
    rw [advanceFrom]
    rcases rest with _ | ⟨c, rest⟩
    · -- the position is the length of the text
      rw [dif_neg (by rw [hsize, utf8Size_nil]; omega)]
      rfl
    have hpos := utf8Size_pos (List.cons_ne_nil c rest)
    obtain ⟨step, hstep, hagrees⟩ := correct_step ctx last c rest
    rw [dif_pos (by omega), h, cutAt?_append]
    simp only [Option.bind_eq_bind, Option.bind_some, hstep]
    generalize hinput : c :: rest = input' at *
    cases hagrees with
    | consumed next a z written ha hread =>
      have hlen : z.length < n := by
        have := List.length_pos_iff.mpr ha
        rw [← hn, List.length_append]
        omega
      -- what the step decided on belongs to the text before the position now
      have hnext := ih z.length hlen (before ++ a) (by rw [h, List.append_assoc]) next rfl
      rw [h, utf8Size_append] at hnext
      dsimp only
      rw [dif_pos (utf8Size_pos ha), hnext, hread]
      rfl
    | blocked next _ _ hread =>
      rw [hread, ← h, hsize, Nat.add_sub_cancel_left]
      rfl

/-- **Following a text by its bytes has a result**, the one that following its characters has. -/
theorem advance_eq (ctx : Context) (last : Bool) (input : Text) :
    advance ctx last input = some (.ofProgress (ctx.advance last input)) :=
  advanceFrom_eq last input [] rfl ctx

/-! ### Progress -/

/-- A step decides on at least one byte and on no more than there are, and a cut after them lies
between two characters; or it is blocked, which it is not at the end of the text. -/
def Progresses (last : Bool) (input : Text) : Step → Prop
  | .consumed _ _ used =>
    0 < used ∧ used ≤ utf8Size input ∧ ∃ decided rest, cutAt? input used = some (decided, rest)
  | .blocked _ => last = false

/-- A step that agrees with the characters decides on something, or the text may go on. -/
theorem Agrees.progresses {step : Step} (h : Agrees ctx last input step) :
    Progresses last input step := by
  cases h with
  | consumed next a z written ha _ =>
    refine ⟨utf8Size_pos ha, ?_, a, z, cutAt?_append a z⟩
    rw [utf8Size_append]
    omega
  | blocked _ _ hlast _ => exact hlast

/-- **Following a text by its bytes makes progress, and never cuts a character.** Each step on a
text that is not empty has a result, so it accesses no position that does not exist; it decides on
whole characters, at least one of them, or it is blocked, and then the text is not the last. So the
loop ends. It leads to the context that following the characters leads to, and writes the same. The
bytes that are left undecided are those of the text that is held back: there are no more of them
than in the text, the text can be cut before them, and there are none of a last text. -/
theorem advance_makes_progress (ctx : Context) (last : Bool) (input : Text) :
    (input ≠ [] → ∃ next, step ctx last input = some next ∧ Progresses last input next)
      ∧ ∃ p decided, advance ctx last input = some p
        ∧ p.context = (ctx.advance last input).context
        ∧ p.written = (ctx.advance last input).written
        ∧ p.undecided = utf8Size (ctx.advance last input).held
        ∧ p.undecided ≤ utf8Size input
        ∧ cutAt? input (utf8Size input - p.undecided)
          = some (decided, (ctx.advance last input).held)
        ∧ (last = true → p.undecided = 0) := by
  constructor
  · intro hne
    obtain ⟨c, rest, rfl⟩ := List.exists_cons_of_ne_nil hne
    obtain ⟨next, hstep, hagrees⟩ := correct_step ctx last c rest
    exact ⟨next, hstep, hagrees.progresses⟩
  obtain ⟨decided, hsplit⟩ := ctx.held_suffix last input
  have hsize : utf8Size input = utf8Size decided + utf8Size (ctx.advance last input).held := by
    rw [← utf8Size_append, hsplit]
  refine ⟨_, decided, advance_eq ctx last input, rfl, rfl, rfl, ?_, ?_, ?_⟩
  · show utf8Size (ctx.advance last input).held ≤ _
    omega
  · -- the cut falls between what is decided and what is held back
    show cutAt? input (utf8Size input - utf8Size (ctx.advance last input).held) = _
    rw [hsize, Nat.add_sub_cancel]
    conv => lhs; rw [← hsplit]
    exact cutAt?_append decided _
  · intro hlast
    show utf8Size (ctx.advance last input).held = 0
    rw [hlast, held_of_last]
    rfl

/-- The name of an attribute that starts with two bytes is held back as a whole. -/
theorem wide_name_is_held_back :
    "x éa".toList ≠ []
      ∧ ∃ p, advance { state := .tag } false "x éa".toList = some p
        ∧ p.undecided = 3
        ∧ cutAt? "x éa".toList (5 - p.undecided) = some ("x ".toList, "éa".toList) := by
  obtain ⟨-, p, -, hrun, -, -, hundecided, -⟩ :=
    advance_makes_progress { state := .tag } false "x éa".toList
  have hthree : p.undecided = 3 := hundecided.trans (by decide)
  refine ⟨by decide, p, hrun, hthree, ?_⟩
  rw [hthree]
  decide

end Bytes

end Context

end SafeMarkup
