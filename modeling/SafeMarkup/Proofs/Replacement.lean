import SafeMarkup.Proofs.Reread

/-!
# Replacing what is held back

Before an untrusted value an incomplete reference is completed. What comes before it has been
decided with the incomplete reference in sight, so it has to be shown that this decision stands. It
does, because nothing that comes before an `&` looks further than that `&` (`advance_replaced`).
-/

namespace SafeMarkup

namespace Context

variable {ctx next : Context} {c : Char} {r w z : Text} {u : Nat}

/-! ### Nothing looks past an `&` -/

/-- A name that reaches an `&` goes on. -/
theorem length_takeWhile_amp {p : Char → Bool} (hp : p '&' = true) (hr : ∀ d ∈ r, p d = true) :
    r.length < ((r ++ '&' :: z).takeWhile p).length := by
  rw [List.takeWhile_append_of_pos hr, List.takeWhile_cons_of_pos hp, List.length_append,
    List.length_cons]
  omega

theorem used_of_stepTagName_amp {opening : Text} {element : Text → Option Html.Element}
    (hr : ∀ d ∈ r, Html.endsTagName d = false)
    (h : ctx.stepTagName false opening element (r ++ '&' :: z) = .consumed next w u) :
    opening.length + r.length < u := by
  have hlen := length_takeWhile_amp (p := (!Html.endsTagName ·)) (z := z) (by decide)
    (by simpa using hr)
  unfold stepTagName at h
  dsimp only at h
  split at h
  · cases h
    omega
  · simp at h

theorem used_of_stepTag_amp (hc : Html.endsTagName c = false)
    (hr : ∀ d ∈ r, Html.endsAttrName d = false)
    (h : ctx.stepTag false c (r ++ '&' :: z) = .consumed next w u) : r.length + 1 < u := by
  have hclose : c ≠ '>' := fun e => by simp [e, Html.endsTagName] at hc
  have hlen := length_takeWhile_amp (p := (!Html.endsAttrName ·)) (z := z) (by decide)
    (by simpa using hr)
  rw [stepTag, if_neg hclose, if_neg (by simp [hc])] at h
  dsimp only at h
  split at h
  · cases h
    rw [List.length_cons]
    omega
  · simp at h

/-- An `&` goes on with neither the name of an element nor its end tag. -/
theorem stepContentMarkup_amp {element : Html.Element}
    (hr : r = [] ∨ ∃ more, r = '/' :: more ∧ element.couldEnd more = true
      ∧ more.length ≤ element.tagName.length) (z : Text) :
    ctx.stepContentMarkup element false (r ++ '&' :: z) = ctx.stepChar '<' := by
  rcases hr with rfl | ⟨more, rfl, hcould, hlen⟩
  · simp [stepContentMarkup]
  rcases Nat.lt_or_eq_of_le hlen with hlt | heq
  · have hnot : element.couldEnd (more ++ '&' :: z) = false := by
      refine Bool.eq_false_iff.mpr fun hlong => ?_
      rw [List.append_cons] at hlong
      -- the `&` still stands within the length of the name
      exact Html.Element.notMem_of_couldEnd (c := '&') (by decide)
        (Html.Element.couldEnd_of_append hlong) (by simp; omega) (by simp)
    simp [stepContentMarkup, hnot]
  · have hdrop : (more ++ '&' :: z).drop element.tagName.length = '&' :: z := List.drop_left' heq
    simp [stepContentMarkup, hdrop, Html.endsTagName, isHtmlSpace]

theorem stepMarkup_replaced (hr : OpenMarkup r)
    (h : ctx.stepMarkup false (r ++ '&' :: z) = .consumed next w u) (hu : u ≤ r.length + 1)
    (z' : Text) : ctx.stepMarkup false (r ++ '&' :: z') = .consumed next w u := by
  cases hr with
  | opening _ ht =>
    -- at most the `&` itself is looked at
    simp only [List.mem_cons, List.not_mem_nil, or_false] at ht
    rcases ht with rfl | rfl | rfl | rfl | rfl | rfl <;> exact h
  | tagName d name hd hname =>
    have hstep : ctx.stepMarkup false (d :: name ++ '&' :: z)
        = ctx.stepTagName false ['<'] Html.Element.ofTagName? (d :: name ++ '&' :: z) :=
      stepMarkup_letter hd
    rw [hstep] at h
    have hlong := used_of_stepTagName_amp hname h
    simp only [List.length_cons, List.length_nil] at hlong hu
    omega
  | endTagName d name hd hname =>
    have hstep : ctx.stepMarkup false ('/' :: d :: name ++ '&' :: z)
        = ctx.stepTagName false ['<', '/'] (fun _ => none) (d :: name ++ '&' :: z) :=
      stepMarkup_endTag hd
    rw [hstep] at h
    have hlong := used_of_stepTagName_amp hname h
    simp only [List.length_cons, List.length_nil] at hlong hu
    omega

theorem stepValueChar_replaced
    (h : ctx.stepValueChar false '&' (r ++ '&' :: z) = .consumed next w u)
    (hu : u ≤ r.length + 1) (z' : Text) :
    ctx.stepValueChar false '&' (r ++ '&' :: z') = .consumed next w u := by
  -- the reference ends before the `&` that follows, whatever comes after that
  have hscan : Html.CharRef.scan false (r ++ '&' :: z') = Html.CharRef.scan false (r ++ '&' :: z) :=
    Html.CharRef.scan_congr false false (by decide) (by decide) Iff.rfl
  rw [stepValueChar, if_pos rfl] at h ⊢
  rw [hscan]
  cases hread : Html.CharRef.scan false (r ++ '&' :: z) with
  -- a reference that is not complete is held back, and no step is made
  | incomplete =>
    rw [hread] at h
    cases h
  | absent =>
    rw [hread] at h
    exact h
  | complete length char =>
    rw [hread] at h
    cases h
    -- what is taken is in front of the part that changes
    have htake (z : Text) : ('&' :: r ++ '&' :: z).take u = ('&' :: r).take u :=
      List.take_append_of_le_length (by simpa using hu)
    simp only [Step.copy, ← List.cons_append, htake]

/-- **A decision does not look past an `&`** that it leaves undecided. -/
theorem step_replaced (h : ctx.step false c (r ++ '&' :: z) = .consumed next w u)
    (hu : u ≤ r.length + 1) (z' : Text) :
    ctx.step false c (r ++ '&' :: z') = .consumed next w u := by
  cases hr : ctx.step false c r with
  | consumed next' w' u' =>
    rw [kept_step ('&' :: z) _ _ _ hr] at h
    cases h
    exact kept_step ('&' :: z') _ _ _ hr
  | blocked clear =>
    obtain ⟨-, -, hundecided, hsame⟩ := blocked_of_step hr
    rw [← hsame] at h ⊢
    -- what comes before the `&` could be the start of something
    cases hundecided with
    | markup _ hd hs hrest =>
      have hmarkup (z : Text) : clear.step false '<' (r ++ '&' :: z)
          = clear.stepMarkup false (r ++ '&' :: z) := by
        simp [step, hd, hs, stepText]
      rw [hmarkup] at h ⊢
      exact stepMarkup_replaced hrest h hu z'
    | name _ _ hd hs hc hrest =>
      have htag : clear.step false c (r ++ '&' :: z) = clear.stepTag false c (r ++ '&' :: z) := by
        simp [step, hd, hs]
      rw [htag] at h
      have hlong := used_of_stepTag_amp hc hrest h
      omega
    | reference _ hd hrest =>
      rw [step_amp hd] at h ⊢
      exact stepValueChar_replaced h hu z'
    | commentEnd _ hd hs ht =>
      have hcomment (z : Text) : clear.step false c (r ++ '&' :: z)
          = clear.stepComment false c (r ++ '&' :: z) := by
        simp only [step, hd, hs]
      rw [hcomment] at h ⊢
      simp only [List.mem_cons, List.not_mem_nil, or_false] at ht
      rcases ht with e | e | e <;> cases e <;> exact h
    | contentEnd element _ hd hs he hend hrest =>
      have hcontent (z : Text) : clear.step false '<' (r ++ '&' :: z)
          = clear.stepContentMarkup element false (r ++ '&' :: z) := by
        rw [step_isContent hd hs]
        simp [stepContent, he, hend]
      rw [hcontent, stepContentMarkup_amp hrest] at h ⊢
      exact h

/-- **A decision on all that comes before an `&`** stands if what follows the `&` is replaced. -/
theorem advance_replaced {a written : Text}
    (h : ctx.advance false (a ++ '&' :: z) = ⟨next, written, '&' :: z⟩) (z' : Text) :
    ctx.advance false (a ++ '&' :: z') = (next.advance false ('&' :: z')).after written := by
  induction hn : a.length using Nat.strong_induction_on generalizing ctx a written with
  | _ n ih =>
    rcases a with _ | ⟨c, r⟩
    · rw [List.nil_append] at h ⊢
      cases hstep : ctx.step false '&' z with
      | consumed mid w u =>
        -- then less than the `&` with all after it would be left
        rw [advance_consumed hstep] at h
        have hlen := (mid.held_suffix false (z.drop (u - 1))).length_le
        rw [← after_held w, h, List.length_cons, List.length_drop] at hlen
        omega
      | blocked mid =>
        rw [advance_blocked hstep] at h
        cases h
        obtain ⟨-, -, -, hsame⟩ := blocked_of_step hstep
        rw [after_nil, advance_cons, advance_cons, hsame]
    · rw [List.cons_append] at h ⊢
      cases hstep : ctx.step false c (r ++ '&' :: z) with
      | blocked mid =>
        rw [advance_blocked hstep] at h
        have hlen := congrArg (·.held.length) h
        simp at hlen
        omega
      | consumed mid w u =>
        rw [advance_consumed hstep] at h
        have hlen := (mid.held_suffix false ((r ++ '&' :: z).drop (u - 1))).length_le
        rw [← after_held w, h, List.length_cons, List.length_drop, List.length_append,
          List.length_cons] at hlen
        have hu : u ≤ r.length + 1 := by omega
        rw [List.drop_append_of_le_length (by omega)] at h
        generalize hp : mid.advance false (r.drop (u - 1) ++ '&' :: z) = p at h
        obtain ⟨last, written', held⟩ := p
        cases h
        have hshort : (r.drop (u - 1)).length < n := by
          rw [List.length_drop, ← hn, List.length_cons]
          omega
        rw [advance_consumed (step_replaced hstep hu z'), List.drop_append_of_le_length (by omega),
          ih _ hshort hp rfl, after_after]

/-! ### The completed reference -/

theorem terminateCharRef_complete {rest : Text} {length : Nat} {char : Char}
    (hin : ctx.inAttrValue = true) (hrun : ∀ c ∈ rest, Html.CharRef.isRefChar c = true)
    (hscan : Html.CharRef.scan true rest = .complete length char)
    (hlen : length = 1 + rest.length) :
    ctx.terminateCharRef ('&' :: rest) = (ctx.feed char, '&' :: (rest ++ [';'])) := by
  have htake : ('&' :: rest).take length = '&' :: rest := List.take_of_length_le (by simp; omega)
  have hdrop : ('&' :: rest).drop length = [] := List.drop_of_length_le (by simp; omega)
  have hopen : ('&' :: rest).getLast? ≠ some ';' := by
    intro h
    rcases List.mem_cons.mp (List.mem_of_getLast? h) with hmem | hmem
    · cases hmem
    · exact absurd (hrun _ hmem) (by decide)
  simp [terminateCharRef, hin, hscan, htake, hdrop, hopen]

theorem terminateCharRef_absent {rest : Text} {delim : Delim} (hd : ctx.delim = some delim)
    (hplain : ∀ c ∈ rest, delim.isPlain c = true)
    (hscan : Html.CharRef.scan true rest = .absent) :
    ctx.terminateCharRef ('&' :: rest)
      = ((ctx.feed '&').feedAll rest, "&amp;".toList ++ rest) := by
  have hin : ctx.inAttrValue = true := by rw [inAttrValue, hd]; rfl
  have hrest : (ctx.feed '&').advance true rest = ⟨(ctx.feed '&').feedAll rest, rest, []⟩ :=
    advance_value ((samePlace_feed ctx '&').delim.trans hd) hplain
  simp [terminateCharRef, hin, hscan, hrest]

/-- **A completed reference is read as it has been followed**, with nothing left open. -/
theorem reread_terminateCharRef {held : Text} (hd : ctx.delim.isSome = true)
    (hu : ctx.Undecided held) :
    ctx.asRead.advance false (ctx.terminateCharRef held).2
      = ⟨(ctx.terminateCharRef held).1.asRead, (ctx.terminateCharRef held).2, []⟩ := by
  obtain ⟨rest, rfl, hopen⟩ := hu.exists_reference hd
  obtain ⟨delim, hdelim⟩ := Option.isSome_iff_exists.mp hd
  have hread : ctx.asRead.delim = some delim.asRead := by rw [asRead, hdelim]; rfl
  obtain ⟨hrun, hcomplete⟩ := Html.CharRef.scan_incomplete hopen
  cases hscan : Html.CharRef.scan true rest with
  | incomplete => exact absurd hscan (Html.CharRef.scan_last rest)
  | complete length char =>
    -- with its `;` the reference is complete whatever follows
    obtain ⟨hlen, hclosed⟩ := hcomplete length char hscan
    have hscan' : Html.CharRef.scan false (rest ++ [';'])
        = .complete ((rest ++ [';']).length + 1) char := by
      rw [hclosed false [], hlen, List.length_append, List.length_singleton, Nat.add_comm 1]
    have href : ctx.asRead.advance false ('&' :: (rest ++ [';']) ++ [])
        = ((ctx.asRead.feed char).advance false []).after ('&' :: (rest ++ [';'])) :=
      advance_reference hread hscan' []
    rw [List.append_nil, advance_nil, feed_asRead] at href
    rw [terminateCharRef_complete hd hrun hscan hlen, href]
    simp [Progress.after]
  | absent =>
    -- the `&` is written as a reference, and what follows it has no meaning
    have hplain (delim : Delim) : ∀ c ∈ rest, delim.isPlain c = true :=
      fun c hc => delim.isPlain_of_isRefChar (hrun c hc)
    have href : ctx.asRead.advance false ("&amp;".toList ++ rest)
        = ((ctx.asRead.feed '&').advance false rest).after "&amp;".toList :=
      advance_reference hread (t := "amp;".toList) (by decide) rest
    have hfeed : (ctx.asRead.feed '&').delim = some delim.asRead :=
      (samePlace_feed ctx.asRead '&').delim.trans hread
    rw [terminateCharRef_absent hdelim (hplain delim) hscan, href,
      advance_value hfeed (hplain delim.asRead), feed_asRead, feedAll_asRead]
    rfl

/-- A completed reference starts with an `&` like the open one. -/
theorem exists_amp_terminateCharRef {rest : Text} (hd : ctx.delim.isSome = true)
    (hopen : Html.CharRef.scan false rest = .incomplete) :
    ∃ rest', (ctx.terminateCharRef ('&' :: rest)).2 = '&' :: rest' := by
  obtain ⟨delim, hdelim⟩ := Option.isSome_iff_exists.mp hd
  obtain ⟨hrun, hcomplete⟩ := Html.CharRef.scan_incomplete hopen
  cases hscan : Html.CharRef.scan true rest with
  | incomplete => exact absurd hscan (Html.CharRef.scan_last rest)
  | complete length char =>
    rw [terminateCharRef_complete hd hrun hscan (hcomplete length char hscan).1]
    exact ⟨_, rfl⟩
  | absent =>
    rw [terminateCharRef_absent hdelim
      (fun c hc => delim.isPlain_of_isRefChar (hrun c hc)) hscan]
    exact ⟨_, rfl⟩

end Context

end SafeMarkup
