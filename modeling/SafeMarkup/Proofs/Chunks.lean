import SafeMarkup.Context.Advance
import SafeMarkup.Proofs.Undecided

/-!
# Texts that arrive in pieces

What a step decides on is decided for good (`step_append`), and what it is blocked on is looked at
again (`blocked_of_step`). So a text can be followed piece by piece, with what is held back passed
on to the next piece, and the outcome is that for the text as a whole (`advance_append`).
-/

namespace SafeMarkup

namespace Html.Element

/-- Texts that go on are compared with the rest of the name. -/
theorem all_zip_append (p : Char × Char → Bool) (a b name : Text) :
    ((a ++ b).zip name).all p = ((a.zip name).all p && (b.zip (name.drop a.length)).all p) := by
  induction a generalizing name with
  | nil => simp
  | cons c a ih =>
    cases name with
    | nil => simp
    | cons d name => simp [ih, Bool.and_assoc]

theorem couldEnd_of_append {element : Element} {a b : Text} (h : element.couldEnd (a ++ b) = true) :
    element.couldEnd a = true := by
  rw [couldEnd, all_zip_append, Bool.and_eq_true] at h
  exact h.1

/-- Once the name is complete nothing after it matters. -/
theorem couldEnd_append {element : Element} {a : Text} (h : element.tagName.length ≤ a.length)
    (b : Text) : element.couldEnd (a ++ b) = element.couldEnd a := by
  rw [couldEnd, all_zip_append, List.drop_eq_nil_of_le h, List.zip_nil_right, List.all_nil,
    Bool.and_true, couldEnd]

end Html.Element

namespace Context

variable {ctx next : Context} {last : Bool} {c : Char} {rest w : Text} {u : Nat}

/-! ### Decisions are final

`early` is the step on a text that may go on, and `late` is the step on a continuation of it. -/

/-- What `early` has decided `late` decides as well. -/
def Kept (early late : Step) : Prop :=
  ∀ next w u, early = .consumed next w u → late = .consumed next w u

theorem kept_refl {step : Step} : Kept step step := fun _ _ _ h => h

theorem kept_blocked {late : Step} : Kept (.blocked ctx) late := by
  intro next w u h
  cases h

/-- A choice is kept that both steps make in the same way. -/
theorem kept_if {p : Prop} [Decidable p] {early early' late late' : Step}
    (h : p → Kept early late) (h' : ¬ p → Kept early' late') :
    Kept (if p then early else early') (if p then late else late') := by
  by_cases hp : p
  · rw [if_pos hp, if_pos hp]
    exact h hp
  · rw [if_neg hp, if_neg hp]
    exact h' hp

/-- The end of a run that has been seen does not depend on what follows. -/
theorem takeWhile_append_of_end {p : Char → Bool} {t : Text} (h : t.dropWhile p ≠ [])
    (more : Text) :
    (t ++ more).takeWhile p = t.takeWhile p ∧ (t ++ more).dropWhile p = t.dropWhile p ++ more := by
  obtain ⟨a, y, z, rfl, -, hy⟩ := Html.CharRef.exists_stop h
  rw [List.append_assoc, List.cons_append]
  simp only [Html.CharRef.takeWhile_append_stop hy, Html.CharRef.dropWhile_append_stop hy,
    List.append_assoc, List.cons_append, and_self]

/-- A name that has ended is not changed by more text. -/
theorem kept_stepTagName {opening : Text} {element : Text → Option Html.Element} (more : Text) :
    Kept (ctx.stepTagName false opening element rest)
      (ctx.stepTagName last opening element (rest ++ more)) := by
  cases hdrop : rest.dropWhile (!Html.endsTagName ·) with
  | nil =>
    simp only [stepTagName, hdrop]
    exact kept_blocked
  | cons y z =>
    obtain ⟨htake, hdrop'⟩ := takeWhile_append_of_end (by rw [hdrop]; simp) more
    simp only [stepTagName, htake, hdrop', hdrop, List.cons_append]
    exact kept_refl

/-- Neither is a declaration that has been told apart. -/
theorem kept_stepDeclaration (more : Text) :
    Kept (ctx.stepDeclaration false rest) (ctx.stepDeclaration last (rest ++ more)) := by
  intro next w u h
  rw [← h]
  unfold stepDeclaration at h
  dsimp only at h
  split at h
  · rfl
  · rfl
  · cases h
  · cases h
  · next t hclose hclose' hopen hopen' =>
    -- the two characters that can tell whether the comment is over at once are there
    clear h
    rcases t with _ | ⟨a, t⟩
    · exact absurd rfl hopen
    rcases t with _ | ⟨b, t⟩
    all_goals
      simp only [stepDeclaration, List.cons_append, List.nil_append]
      split <;> simp_all [Step.copy]
  · cases h
  · cases h
  · next hnil hdash hother =>
    clear h
    rcases rest with _ | ⟨a, rest⟩
    · exact absurd rfl hdash
    rcases rest with _ | ⟨b, rest⟩
    all_goals
      simp only [stepDeclaration, List.cons_append, List.nil_append]
      split <;> simp_all [Step.copy]

/-- Markup is kept, kind by kind. -/
theorem kept_stepMarkup (more : Text) :
    Kept (ctx.stepMarkup false rest) (ctx.stepMarkup last (rest ++ more)) := by
  rcases rest with _ | ⟨c, rest⟩
  · exact kept_blocked
  rw [List.cons_append]
  unfold stepMarkup
  refine kept_if (fun _ => kept_stepDeclaration more) fun _ => ?_
  refine kept_if (fun _ => kept_refl) fun _ => kept_if (fun _ => ?_) fun _ => ?_
  · rcases rest with _ | ⟨d, rest⟩
    · exact kept_blocked
    rw [List.cons_append]
    unfold stepEndTag
    exact kept_if (fun _ => kept_stepTagName more) fun _ => kept_refl
  · exact kept_if (fun _ => kept_stepTagName more) fun _ => kept_refl

/-- In a tag a name is kept once it has ended. -/
theorem kept_stepTag (more : Text) :
    Kept (ctx.stepTag false c rest) (ctx.stepTag last c (rest ++ more)) := by
  unfold stepTag
  refine kept_if (fun _ => kept_refl) fun _ => kept_if (fun _ => kept_refl) fun _ => ?_
  cases hdrop : rest.dropWhile (!Html.endsAttrName ·) with
  | nil => exact kept_blocked
  | cons y z =>
    obtain ⟨htake, hdrop'⟩ := takeWhile_append_of_end (by rw [hdrop]; simp) more
    simp only [htake, hdrop', hdrop, List.cons_append]
    exact kept_refl

theorem kept_stepAfterName (more : Text) :
    Kept (ctx.stepAfterName false c rest) (ctx.stepAfterName last c (rest ++ more)) :=
  kept_if (fun _ => kept_refl) fun _ => kept_if (fun _ => kept_refl) fun _ =>
    kept_if (fun _ => kept_refl) fun _ => kept_stepTag more

/-- A reference is kept once it has been decided on. -/
theorem kept_stepValueChar (more : Text) :
    Kept (ctx.stepValueChar false c rest) (ctx.stepValueChar last c (rest ++ more)) := by
  unfold stepValueChar
  refine kept_if (fun _ => ?_) fun _ => kept_refl
  cases hscan : Html.CharRef.scan false rest with
  | incomplete => exact kept_blocked
  | complete length char =>
    have hlen := (Html.CharRef.scan_length hscan).2
    rw [Html.CharRef.scan_append (by simp [hscan]), hscan]
    simp only [Step.copy, ← List.cons_append]
    rw [List.take_append_of_le_length (by simp; omega)]
    exact kept_refl
  | absent =>
    rw [Html.CharRef.scan_append (by simp [hscan]), hscan]
    exact kept_refl

/-- How a value ends is seen from one character. -/
theorem kept_stepValue {delim : Delim} (more : Text) :
    Kept (ctx.stepValue delim false c rest) (ctx.stepValue delim last c (rest ++ more)) := by
  cases delim with
  | doubleQuote => exact kept_if (fun _ => kept_refl) fun _ => kept_stepValueChar more
  | singleQuote => exact kept_if (fun _ => kept_refl) fun _ => kept_stepValueChar more
  | spaceOrTagEnd =>
    exact kept_if (fun _ => kept_refl) fun _ => kept_if (fun _ => kept_refl) fun _ =>
      kept_stepValueChar more
  | autoQuote =>
    exact kept_if (fun _ => kept_refl) fun _ => kept_if (fun _ => kept_refl) fun _ =>
      kept_if (fun _ => kept_refl) fun _ => kept_stepValueChar more

/-- A comment goes on, or ends, whatever follows the characters that have been looked at. -/
theorem kept_stepComment (more : Text) :
    Kept (ctx.stepComment false c rest) (ctx.stepComment last c (rest ++ more)) := by
  intro next w u h
  rw [← h]
  unfold stepComment at h
  dsimp only at h
  split at h
  · next heq => obtain ⟨rfl, rfl⟩ := List.cons.inj heq; rfl
  · next heq => obtain ⟨rfl, rfl⟩ := List.cons.inj heq; rfl
  · cases h
  · cases h
  · cases h
  · -- the characters that can tell whether the comment ends are there
    clear h
    rcases rest with _ | ⟨a, _ | ⟨b, _ | ⟨d, rest⟩⟩⟩
    all_goals
      simp only [stepComment, List.cons_append, List.nil_append]
      split <;> simp_all [Step.copy]

/-- A `<` in content is kept once an end tag has been ruled out or found. -/
theorem kept_stepContentMarkup {element : Html.Element} (more : Text) :
    Kept (ctx.stepContentMarkup element false rest)
      (ctx.stepContentMarkup element last (rest ++ more)) := by
  rcases rest with _ | ⟨c, rest⟩
  · exact kept_blocked
  simp only [stepContentMarkup, List.cons_append, Bool.false_eq_true, ↓reduceIte]
  by_cases hcould : c = '/' ∧ element.couldEnd rest = true
  · rw [if_pos hcould]
    cases hdrop : rest.drop element.tagName.length with
    | nil => exact kept_blocked
    | cons d after =>
      -- the name is there in full, so it is compared in full
      have hlen := congrArg List.length hdrop
      rw [List.length_drop, List.length_cons] at hlen
      rw [Html.Element.couldEnd_append (by omega), if_pos hcould,
        List.drop_append_of_le_length (by omega), hdrop]
      refine kept_if (fun _ => ?_) fun _ => kept_refl
      simp only [Step.copy, ← List.cons_append]
      rw [List.take_append_of_le_length (by simp; omega)]
      exact kept_refl
  · rw [if_neg hcould, if_neg fun h => hcould ⟨h.1, Html.Element.couldEnd_of_append h.2⟩]
    exact kept_refl

theorem kept_stepContent (more : Text) :
    Kept (ctx.stepContent false c rest) (ctx.stepContent last c (rest ++ more)) := by
  unfold stepContent
  split
  · exact kept_refl
  · next element _ =>
    exact kept_if (fun _ => kept_stepContentMarkup more) fun _ => kept_refl

/-- **A decision is final**: more text after it does not change it. -/
theorem kept_step (more : Text) :
    Kept (ctx.step false c rest) (ctx.step last c (rest ++ more)) := by
  -- the guards look at what has been read, so only the rules of each state see what follows
  unfold step
  split
  · exact kept_stepValue more
  · split
    · exact kept_if (fun _ => kept_stepMarkup more) fun _ => kept_refl
    · exact kept_if (fun _ => kept_stepTag more) fun _ => kept_refl
    · exact kept_stepTag more
    · exact kept_if (fun _ => kept_stepAfterName more) fun _ => kept_refl
    · exact kept_stepAfterName more
    · exact kept_if (fun _ => kept_refl) fun _ => kept_if (fun _ => kept_refl) fun _ =>
        kept_if (fun _ => kept_refl) fun _ => kept_if (fun _ => kept_refl) fun _ =>
        kept_stepValue more
    · exact kept_stepComment more
    · exact kept_refl
    all_goals exact kept_stepContent more

/-! ### The text as a whole -/

/-- A step decides on at least one character, and not on more than there are. -/
theorem used_of_step (h : ctx.step last c rest = .consumed next w u) :
    0 < u ∧ u ≤ rest.length + 1 := by
  by_cases hd : ctx.delim = some .autoQuote
  · simp only [step, hd, stepValue] at h
    split at h
    · cases h; omega
    split at h
    · cases h; omega
    split at h
    · cases h; omega
    · obtain ⟨hpos, hle, -⟩ := copies_stepValueChar next w u h
      exact ⟨hpos, by simpa using hle⟩
  · obtain ⟨hpos, hle, -⟩ := copies_step hd next w u h
    exact ⟨hpos, by simpa using hle⟩

theorem advance_consumed (h : ctx.step last c rest = .consumed next w u) :
    ctx.advance last (c :: rest) = (next.advance last (rest.drop (u - 1))).after w := by
  rw [advance_cons, h]

theorem advance_blocked (h : ctx.step last c rest = .blocked next) :
    ctx.advance last (c :: rest) = ⟨next, [], c :: rest⟩ := by
  rw [advance_cons, h]

/-- To prove something of all texts it is enough to follow them step by step. -/
@[elab_as_elim]
theorem advance_induction {motive : Context → Text → Prop} (last : Bool)
    (nil : ∀ ctx, motive ctx [])
    (consumed : ∀ ctx c rest next w u, ctx.step last c rest = .consumed next w u →
      motive next (rest.drop (u - 1)) → motive ctx (c :: rest))
    (blocked : ∀ ctx c rest next, ctx.step last c rest = .blocked next → motive ctx (c :: rest))
    (ctx : Context) (t : Text) : motive ctx t := by
  induction hn : t.length using Nat.strong_induction_on generalizing ctx t with
  | _ n ih =>
    rcases t with _ | ⟨c, rest⟩
    · exact nil ctx
    cases hstep : ctx.step last c rest with
    | consumed next w u =>
      have hlen : (rest.drop (u - 1)).length < n := by
        rw [List.length_drop, ← hn, List.length_cons]
        omega
      exact consumed ctx c rest next w u hstep (ih _ hlen _ _ rfl)
    | blocked next => exact blocked ctx c rest next hstep

/-- Text that has been written before is put in front of what is written. -/
@[simp] theorem after_after (a b : Text) (p : Progress) :
    (p.after b).after a = p.after (a ++ b) := by
  simp [Progress.after]

@[simp] theorem after_nil (p : Progress) : p.after [] = p := rfl

@[simp] theorem after_context (a : Text) (p : Progress) : (p.after a).context = p.context := rfl

@[simp] theorem after_held (a : Text) (p : Progress) : (p.after a).held = p.held := rfl

@[simp] theorem after_written (a : Text) (p : Progress) :
    (p.after a).written = a ++ p.written := rfl

/-- **A text can be followed piece by piece.** What is held back of the first piece is passed on to
the second. -/
theorem advance_append (ctx : Context) (last : Bool) (a b : Text) :
    ctx.advance last (a ++ b)
      = ((ctx.advance false a).context.advance last ((ctx.advance false a).held ++ b)).after
          (ctx.advance false a).written := by
  induction ctx, a using advance_induction false with
  | nil ctx => rfl
  | consumed ctx c rest next w u hstep ih =>
    -- the step is the same with `b` in sight, and decides on nothing of `b`
    obtain ⟨hpos, hle⟩ := used_of_step hstep
    rw [List.cons_append, advance_consumed (kept_step b next w u hstep),
      advance_consumed hstep, List.drop_append_of_le_length (by omega), ih]
    simp
  | blocked ctx c rest next hstep =>
    -- what has become clear does not change how the text is read on
    obtain ⟨-, -, -, hnext⟩ := blocked_of_step hstep
    rw [advance_blocked hstep, after_nil, List.cons_append, advance_cons, advance_cons, hnext]

/-- The context for a value is that at the end of all text. -/
theorem peek_append (ctx : Context) (a b : Text) :
    ctx.peek (a ++ b) = (ctx.advance false a).context.peek ((ctx.advance false a).held ++ b) := by
  rw [peek, advance_append, after_context, peek]

/-! ### What is held back -/

/-- **What is held back is undecided**, and nothing is held back at the end. -/
theorem held_of_advance (ctx : Context) (last : Bool) (t : Text) :
    (ctx.advance last t).held = []
      ∨ last = false ∧ (ctx.advance last t).context.Undecided (ctx.advance last t).held := by
  induction ctx, t using advance_induction last with
  | nil ctx => exact Or.inl rfl
  | consumed ctx c rest next w u hstep ih =>
    rw [advance_consumed hstep]
    exact ih
  | blocked ctx c rest next hstep =>
    obtain ⟨hlast, -, hu, -⟩ := blocked_of_step hstep
    rw [advance_blocked hstep]
    exact Or.inr ⟨hlast, hu⟩

theorem held_of_last (ctx : Context) (t : Text) : (ctx.advance true t).held = [] := by
  rcases held_of_advance ctx true t with h | ⟨h, -⟩
  · exact h
  · cases h

/-- What is held back is the end of the text. -/
theorem held_suffix (ctx : Context) (last : Bool) (t : Text) : (ctx.advance last t).held <:+ t := by
  induction ctx, t using advance_induction last with
  | nil => exact List.suffix_refl []
  | consumed ctx c rest next w u hstep ih =>
    rw [advance_consumed hstep, after_held]
    exact (ih.trans (List.drop_suffix _ _)).trans (List.suffix_cons c rest)
  | blocked ctx c rest next hstep =>
    have hheld : (ctx.advance last (c :: rest)).held = c :: rest := by rw [advance_blocked hstep]
    exact hheld.symm ▸ List.suffix_refl (c :: rest)

/-- There is no doubt about the empty text. -/
theorem Undecided.ne_nil {t : Text} (h : ctx.Undecided t) : t ≠ [] := by
  cases h with
  | commentEnd _ _ _ ht =>
    rintro rfl
    simp at ht
  | markup | name | reference | contentEnd => exact List.cons_ne_nil _ _

/-- In a value only a reference can be undecided. -/
theorem Undecided.exists_reference {t : Text} (h : ctx.Undecided t) (hd : ctx.delim.isSome = true) :
    ∃ rest, t = '&' :: rest ∧ Html.CharRef.scan false rest = .incomplete := by
  cases h with
  | reference rest _ hopen => exact ⟨rest, rfl, hopen⟩
  | markup _ hd' | name _ _ hd' | commentEnd _ hd' | contentEnd _ _ hd' =>
    rw [hd'] at hd
    cases hd

/-- Undecided text is held back as it is. -/
theorem Undecided.advance {t : Text} (h : ctx.Undecided t) :
    ctx.advance false t = ⟨ctx, [], t⟩ := by
  rcases t with _ | ⟨c, rest⟩
  · exact absurd rfl h.ne_nil
  · exact advance_blocked h.step

/-- Outside of values that have been put in quotes nothing is changed. -/
theorem written_append_held {last : Bool} (h : ctx.delim ≠ some .autoQuote) (t : Text) :
    (ctx.advance last t).written ++ (ctx.advance last t).held = t := by
  induction ctx, t using advance_induction last with
  | nil ctx => rfl
  | consumed ctx c rest next w u hstep ih =>
    obtain ⟨hpos, hle, rfl⟩ := copies_step h next w u hstep
    have hdrop : rest.drop (u - 1) = (c :: rest).drop u := by
      obtain ⟨n, rfl⟩ := Nat.exists_eq_succ_of_ne_zero (Nat.ne_of_gt hpos)
      rfl
    rw [advance_consumed hstep, after_written, after_held, List.append_assoc,
      ih ((next_of_step hstep).delim_ne h), hdrop, List.take_append_drop]
  | blocked ctx c rest next hstep => rw [advance_blocked hstep]; rfl

end Context

end SafeMarkup
