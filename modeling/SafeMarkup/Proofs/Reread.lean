import SafeMarkup.Proofs.HtmlEscape

/-!
# Reading what has been written

Where a value has been put in quotes the output is not the text that has been followed. A reader of
the output sees a value in double quotes (`asRead`), and reads there what the text stands for: the
text as it goes out (`rewritten`) is followed by the reader as the text itself has been (`reread`).
-/

namespace SafeMarkup

/-- How a delimiter appears to a reader of the output. -/
def Delim.asRead : Delim → Delim
  | .autoQuote => .doubleQuote
  | delim => delim

/-- How a context appears to a reader of the output. -/
def Context.asRead (ctx : Context) : Context := { ctx with delim := ctx.delim.map Delim.asRead }

/-- How progress appears to a reader of the output. -/
def Progress.asRead (p : Progress) : Progress := { p with context := p.context.asRead }

/-- What goes out for a text in a value that has been put in quotes, the closing quote included. -/
def quoteValue : Text → Text
  | [] => []
  | c :: rest =>
    if Delim.autoQuote.endsAt c then '"' :: c :: rest
    else if c = '"' then "&#34;".toList ++ quoteValue rest
    else c :: quoteValue rest

/-- Characters that neither end such a value nor are quotes go out as they are. -/
theorem quoteValue_append {a : Text}
    (ha : ∀ c ∈ a, Delim.autoQuote.endsAt c = false ∧ c ≠ '"') (b : Text) :
    quoteValue (a ++ b) = a ++ quoteValue b := by
  induction a with
  | nil => rfl
  | cons c a ih =>
    obtain ⟨hc, ha⟩ := List.forall_mem_cons.mp ha
    rw [List.cons_append, quoteValue, if_neg (by simp [hc.1]), if_neg hc.2, ih ha,
      List.cons_append]

namespace Html.CharRef

/-- In a value that has been put in quotes references go out as they are. -/
theorem kept_of_isRefChar {c : Char} (hc : isRefChar c = true ∨ c = ';') :
    Delim.autoQuote.endsAt c = false ∧ c ≠ '"' := by
  rcases hc with hc | rfl
  · have hplain := Delim.autoQuote.isPlain_of_isRefChar hc
    simp only [Delim.isPlain, Bool.and_eq_true, Bool.not_eq_true', Bool.or_eq_true,
      bne_iff_ne, ne_eq, not_true_eq_false, false_or] at hplain
    exact ⟨hplain.1.1, hplain.2⟩
  · decide

/-- **References are not affected by the quotes.** -/
theorem scan_quoteValue (rest : Text) : scan false (quoteValue rest) = scan false rest := by
  by_cases hend : rest.dropWhile isRefChar = []
  · have hall : ∀ c ∈ rest, isRefChar c = true := List.dropWhile_eq_nil_iff.mp hend
    have hquote := quoteValue_append (fun c hc => kept_of_isRefChar (Or.inl (hall c hc))) []
    rw [List.append_nil, quoteValue, List.append_nil] at hquote
    rw [hquote]
  -- a reference depends only on the first character that cannot be in one
  obtain ⟨a, y, z, rfl, ha, hy⟩ := exists_stop hend
  rw [quoteValue_append fun c hc => kept_of_isRefChar (Or.inl (ha c hc)), quoteValue]
  split
  · next hy' =>
    have hsemi : y ≠ ';' := fun e => by simp [e, Delim.endsAt, isHtmlSpace] at hy'
    exact scan_congr false false (by decide) hy (by simp [hsemi])
  split
  · next hquote =>
    subst hquote
    exact scan_congr false false (y := '&') (by decide) hy (by simp)
  · exact scan_congr false false hy hy Iff.rfl

end Html.CharRef

namespace Context

/-! ### The delimiter does not matter to the language -/

section Delim

variable (ctx : Context) (delim : Option Delim) (c : Char)

/-- A string is read alike in every value, whatever ends the value. -/
theorem feedString_delim (quote : Char) (code : State) (endsLine : Char → Bool) :
    feedString { ctx with delim } quote code endsLine c
      = { ctx.feedString quote code endsLine c with delim } := by
  unfold feedString
  repeat' split
  all_goals rfl

theorem feedBlockComment_delim (code : State) :
    feedBlockComment { ctx with delim } code c = { ctx.feedBlockComment code c with delim } := by
  unfold feedBlockComment
  repeat' split
  all_goals rfl

theorem feedJsToken_delim :
    feedJsToken { ctx with delim } c = { ctx.feedJsToken c with delim } := by
  unfold feedJsToken
  repeat' split
  all_goals rfl

theorem feedJsCode_delim : feedJsCode { ctx with delim } c = { ctx.feedJsCode c with delim } := by
  unfold feedJsCode
  rw [feedJsToken_delim]
  dsimp only
  repeat' split
  all_goals rfl

theorem feedJsRegexp_delim :
    feedJsRegexp { ctx with delim } c = { ctx.feedJsRegexp c with delim } := by
  unfold feedJsRegexp
  repeat' split
  all_goals rfl

theorem feedJsSlash_delim :
    feedJsSlash { ctx with delim } c = { ctx.feedJsSlash c with delim } := by
  unfold feedJsSlash
  split
  · rfl
  split
  · rfl
  · obtain ⟨state, element, attr, other, urlPart, slash, flags, word, lastChar, urlWord⟩ := ctx
    cases slash with
    | regexp => exact feedJsRegexp_delim ⟨_, _, _, _, _, _, _, _, _, _⟩ delim c
    | division => exact feedJsCode_delim ⟨_, _, _, _, _, _, _, _, _, _⟩ delim c

/-- All of JS is read without a look at the end of the value. -/
theorem feedJs_delim (mode : Js.Mode) :
    feedJs { ctx with delim } mode c = { ctx.feedJs mode c with delim } := by
  cases mode with
  | code => exact feedJsCode_delim ctx delim c
  | slash => exact feedJsSlash_delim ctx delim c
  | doubleQuoted => exact feedString_delim ctx delim c '"' (.js .code) fun _ => false
  | singleQuoted => exact feedString_delim ctx delim c '\'' (.js .code) fun _ => false
  | template => exact feedString_delim ctx delim c '\x60' (.js .code) fun _ => false
  | regexp => exact feedJsRegexp_delim ctx delim c
  | blockComment => exact feedBlockComment_delim ctx delim c (.js .code)
  | lineComment =>
    unfold feedJs
    dsimp only
    split <;> rfl

theorem feedCssCode_delim :
    feedCssCode { ctx with delim } c = { ctx.feedCssCode c with delim } := by
  unfold feedCssCode
  repeat' split
  all_goals rfl

/-- All of CSS is read without a look at the end of the value. -/
theorem feedCss_delim (mode : Css.Mode) :
    feedCss { ctx with delim } mode c = { ctx.feedCss mode c with delim } := by
  -- a quoted URL is a string, of which the part read so far is remembered
  have quoted (quote : Char) : feedCssQuotedUrl { ctx with delim } quote c
      = { ctx.feedCssQuotedUrl quote c with delim } := by
    unfold feedCssQuotedUrl
    rw [feedString_delim]
    dsimp only
    split <;> rfl
  cases mode with
  | code => exact feedCssCode_delim ctx delim c
  | slash =>
    unfold feedCss feedCssSlash
    dsimp only
    repeat' split
    · rfl
    · rfl
    · exact feedCssCode_delim { ctx with state := .css .code } delim c
  | doubleQuoted => exact feedString_delim ctx delim c '"' (.css .code) Css.isLineEnd
  | singleQuoted => exact feedString_delim ctx delim c '\'' (.css .code) Css.isLineEnd
  | urlOpen =>
    unfold feedCss feedCssUrlOpen
    dsimp only
    repeat' split
    all_goals rfl
  | url =>
    unfold feedCss feedCssUrl
    dsimp only
    repeat' split
    all_goals rfl
  | doubleQuotedUrl => exact quoted '"'
  | singleQuotedUrl => exact quoted '\''
  | blockComment => exact feedBlockComment_delim ctx delim c (.css .code)
  | lineComment =>
    unfold feedCss
    dsimp only
    split <;> rfl

/-- The delimiter of a value does not matter to the language in it. -/
theorem feed_delim : feed { ctx with delim } c = { ctx.feed c with delim } := by
  unfold feed
  dsimp only
  split
  · rfl
  · exact feedJs_delim ctx delim c _
  · exact feedCss_delim ctx delim c _
  · rfl

end Delim


variable {ctx next : Context} {c : Char} {t : Text}

/-- A context outside of added quotes is read as it is. -/
theorem asRead_eq_self (h : ctx.delim ≠ some .autoQuote) : ctx.asRead = ctx := by
  have hdelim : ctx.delim.map Delim.asRead = ctx.delim := by
    cases hd : ctx.delim with
    | none => rfl
    | some delim =>
      cases delim with
      | autoQuote => exact absurd hd h
      | doubleQuote | singleQuote | spaceOrTagEnd => rfl
  rw [asRead, hdelim]

theorem feed_asRead (ctx : Context) (c : Char) : ctx.asRead.feed c = (ctx.feed c).asRead := by
  rw [asRead, feed_delim, asRead, (samePlace_feed ctx c).delim]

theorem feedAll_asRead (ctx : Context) (t : Text) :
    ctx.asRead.feedAll t = (ctx.feedAll t).asRead := by
  induction t generalizing ctx with
  | nil => rfl
  | cons c t ih => rw [feedAll_cons, feed_asRead, ih, feedAll_cons]

/-! ### The text as it goes out -/

/-- The text as it goes out. In added quotes its own quotes are replaced, and the last one is added.
-/
def rewritten (ctx : Context) (t : Text) : Text :=
  if ctx.delim = some .autoQuote then quoteValue t else t

theorem rewritten_of_ne (h : ctx.delim ≠ some .autoQuote) (t : Text) : ctx.rewritten t = t :=
  if_neg h

theorem rewritten_autoQuote (h : ctx.delim = some .autoQuote) (t : Text) :
    ctx.rewritten t = quoteValue t := if_pos h

/-- No value is put in quotes while a text is followed. -/
theorem delim_advance {last : Bool} (h : ctx.delim ≠ some .autoQuote) (t : Text) :
    (ctx.advance last t).context.delim ≠ some .autoQuote := by
  induction ctx, t using advance_induction last with
  | nil => exact h
  | consumed ctx c rest next w u hstep ih =>
    rw [advance_consumed hstep]
    exact ih ((next_of_step hstep).delim_ne h)
  | blocked ctx c rest next hstep =>
    rw [advance_blocked hstep]
    cases (blocked_of_step hstep).2.1 with
    | same => exact h
    | tag => exact delim_ne_of_eq_none rfl
    | value => simp [attrValue]

theorem asRead_advance {last : Bool} (h : ctx.delim ≠ some .autoQuote) (t : Text) :
    (ctx.advance last t).asRead = ctx.advance last t := by
  rw [Progress.asRead, asRead_eq_self (delim_advance h t)]

theorem asRead_after (written : Text) (p : Progress) :
    (p.after written).asRead = p.asRead.after written := rfl

/-- The end of a value that has been put in quotes. -/
theorem reread_valueEnd (hd : ctx.delim = some .autoQuote)
    (hc : Delim.autoQuote.endsAt c = true) (rest : Text) :
    ctx.asRead.advance false (quoteValue (c :: rest)) = (ctx.advance false (c :: rest)).asRead := by
  have hread : ctx.asRead.delim = some .doubleQuote := by rw [asRead, hd]; rfl
  -- the closing quote brings the reader into the tag, where `c` is read once more
  have hquote : ctx.asRead.step false '"' (c :: rest) = .consumed ctx.inTag ['"'] 1 := by
    have hstep : ctx.asRead.step false '"' (c :: rest) = .consumed ctx.asRead.inTag ['"'] 1 := by
      simp [step, hread, stepValue]
    exact hstep
  rw [quoteValue, if_pos hc, advance_consumed hquote, List.drop_zero]
  by_cases hclose : c = '>'
  · subst hclose
    have hstep : ctx.step false '>' rest = .consumed ctx.closeTag ['"', '>'] 1 := by
      simp [step, hd, stepValue]
    have hstep' : ctx.inTag.step false '>' rest = .consumed ctx.closeTag ['>'] 1 := by
      simp [step, inTag, stepTag, closeTag]
    rw [advance_consumed hstep, advance_consumed hstep', asRead_after,
      asRead_advance (delim_ne_of_eq_none rfl), after_after]
    rfl
  · have hspace : isHtmlSpace c = true := by
      simpa [Delim.endsAt, hclose] using hc
    have hstep : ctx.step false c rest = .consumed ctx.inTag ['"', c] 1 := by
      simp [step, hd, stepValue, hclose, hspace]
    have hstep' : ctx.inTag.step false c rest = .consumed ctx.inTag [c] 1 := by
      simp [step, inTag, stepTag, hclose, Html.endsTagName, hspace]
    rw [advance_consumed hstep, advance_consumed hstep', asRead_after,
      asRead_advance (delim_ne_of_eq_none rfl), after_after]
    rfl

/-- A reference, or an `&` that starts none, in a value that has been put in quotes. -/
theorem reread_amp (hd : ctx.delim = some .autoQuote) {rest w : Text} {u : Nat}
    (hstep : ctx.step false '&' rest = .consumed next w u) :
    ctx.asRead.advance false ('&' :: quoteValue rest)
      = (next.asRead.advance false (quoteValue (rest.drop (u - 1)))).after w := by
  have hread : ctx.asRead.delim.isSome = true := by rw [asRead, hd]; rfl
  rw [step_amp (by rw [hd]; rfl), stepValueChar, if_pos rfl] at hstep
  have hstep' : ctx.asRead.step false '&' (quoteValue rest)
      = ctx.asRead.stepValueChar false '&' (quoteValue rest) := step_amp hread
  rw [stepValueChar, if_pos rfl, Html.CharRef.scan_quoteValue] at hstep'
  cases hscan : Html.CharRef.scan false rest with
  | incomplete =>
    rw [hscan] at hstep
    cases hstep
  | absent =>
    rw [hscan] at hstep hstep'
    cases hstep
    rw [advance_consumed hstep', feed_asRead]
    rfl
  | complete length char =>
    obtain ⟨n, rfl⟩ := Nat.exists_eq_succ_of_ne_zero
      (Nat.ne_of_gt (Html.CharRef.scan_length hscan).1)
    have hlen := (Html.CharRef.scan_length hscan).2
    -- the characters of the reference go out as they are
    have hkept := quoteValue_append
      (fun c hc => Html.CharRef.kept_of_isRefChar (Html.CharRef.mem_of_scan hscan c hc))
      (rest.drop n)
    rw [Nat.succ_sub_one, List.take_append_drop] at hkept
    have htaken : (rest.take n).length = n := by
      rw [List.length_take]
      omega
    have htake : (quoteValue rest).take n = rest.take n := by
      rw [hkept, List.take_left' htaken]
    have hdrop : (quoteValue rest).drop n = quoteValue (rest.drop n) := by
      rw [hkept, List.drop_left' htaken]
    rw [hscan] at hstep hstep'
    cases hstep
    simp only [Step.copy, Nat.succ_eq_add_one, List.take_succ_cons, htake] at hstep'
    rw [advance_consumed hstep', feed_asRead, Nat.succ_sub_one, hdrop]
    rfl

/-- One step in a value that has been put in quotes. -/
theorem reread_step (hd : ctx.delim = some .autoQuote) {rest w : Text} {u : Nat}
    (hend : Delim.autoQuote.endsAt c = false)
    (hstep : ctx.step false c rest = .consumed next w u) :
    ctx.asRead.advance false (quoteValue (c :: rest))
      = (next.asRead.advance false (quoteValue (rest.drop (u - 1)))).after w := by
  have hread : ctx.asRead.delim = some .doubleQuote := by rw [asRead, hd]; rfl
  rw [quoteValue, if_neg (by simp [hend])]
  -- a quote of the value is the only character that goes out changed
  by_cases hquote : c = '"'
  · subst hquote
    have hstep' : ctx.step false '"' rest = .consumed (ctx.feed '"') "&#34;".toList 1 := by
      simp [step, hd, stepValue, isHtmlSpace]
    cases hstep.symm.trans hstep'
    rw [if_pos rfl, ← feed_asRead]
    exact advance_reference hread (t := "#34;".toList) (d := '"') (by decide) (quoteValue rest)
  rw [if_neg hquote]
  by_cases hamp : c = '&'
  · subst hamp
    exact reread_amp hd hstep
  · have hplain : Delim.autoQuote.isPlain c = true := by
      simp [Delim.isPlain, hend, hquote, hamp]
    have hplain' : Delim.doubleQuote.isPlain c = true := by
      simp [Delim.isPlain, Delim.endsAt, hquote, hamp]
    cases hstep.symm.trans (step_value hd hplain)
    rw [advance_consumed (step_value hread hplain'), feed_asRead]
    rfl

/-- What is held back of a value that has been put in quotes goes out as it is. -/
theorem quoteValue_of_undecided (hd : ctx.delim = some .autoQuote) (hu : ctx.Undecided t)
    (b : Text) :
    quoteValue (t ++ b) = t ++ quoteValue b := by
  obtain ⟨rest, rfl, hopen⟩ := hu.exists_reference (by rw [hd]; rfl)
  have hrun := (Html.CharRef.scan_incomplete hopen).1
  exact quoteValue_append (List.forall_mem_cons.mpr
    ⟨by decide, fun c hc => Html.CharRef.kept_of_isRefChar (Or.inl (hrun c hc))⟩) b

/-- What is undecided remains so for a reader. -/
theorem Undecided.asRead (hu : ctx.Undecided t) : ctx.asRead.Undecided t := by
  by_cases hd : ctx.delim = some .autoQuote
  · obtain ⟨rest, rfl, hopen⟩ := hu.exists_reference (by rw [hd]; rfl)
    exact .reference rest (by rw [Context.asRead, hd]; rfl) hopen
  · rwa [asRead_eq_self hd]

/-- **What goes out for a text is read as the text has been followed.** -/
theorem reread (ctx : Context) (t : Text) :
    ctx.asRead.advance false (ctx.rewritten t) = (ctx.advance false t).asRead := by
  by_cases hd : ctx.delim = some .autoQuote
  case neg => rw [asRead_eq_self hd, rewritten_of_ne hd, asRead_advance hd]
  rw [rewritten_autoQuote hd]
  induction ctx, t using advance_induction false with
  | nil ctx => rfl
  | consumed ctx c rest next w u hstep ih =>
    cases hend : Delim.autoQuote.endsAt c with
    | true => exact reread_valueEnd hd hend rest
    | false =>
      have hnext : next.delim = some .autoQuote := by
        cases next_of_step hstep <;> simp_all [(samePlace_feed ctx _).delim]
      rw [reread_step hd hend hstep, advance_consumed hstep, asRead_after, ih hnext]
  | blocked ctx c rest next hstep =>
    -- what is held back is a reference, and goes out as it is
    obtain ⟨-, hclearer, hu, -⟩ := blocked_of_step hstep
    have hnext : next = ctx := by
      cases hclearer with
      | same => rfl
      | tag hd' | value hd' => rw [hd] at hd'; cases hd'
    subst hnext
    have hkept := quoteValue_of_undecided hd hu []
    rw [List.append_nil, quoteValue, List.append_nil] at hkept
    rw [advance_blocked hstep, hkept, hu.asRead.advance]
    rfl

/-! ### The end of the text -/

/-- What is held back goes out as it is where the text ends. -/
theorem advance_held (hheld : t = [] ∨ ctx.Undecided t) :
    ctx.advance true t = ⟨ctx.peek t, t, []⟩ := by
  rcases hheld with rfl | hu
  · rfl
  -- in added quotes only the start of a reference can be held back, and it has no quotes
  have hwritten : (ctx.advance true t).written = t := by
    by_cases hd : ctx.delim = some .autoQuote
    · have hsome : ctx.delim.isSome = true := by rw [hd]; rfl
      obtain ⟨rest, rfl, hopen⟩ := hu.exists_reference hsome
      rw [advance_openReference_last hsome hopen]
    · have hall : (ctx.advance true t).written ++ (ctx.advance true t).held = t :=
        written_append_held hd t
      rwa [held_of_last, List.append_nil] at hall
  have hnone := ctx.held_of_last t
  rw [peek]
  generalize ctx.advance true t = p at *
  obtain ⟨next, written, held⟩ := p
  dsimp only at hwritten hnone ⊢
  rw [hwritten, hnone]

/-- A reader takes what is held back for the same. -/
theorem peek_asRead (hheld : t = [] ∨ ctx.Undecided t) :
    ctx.asRead.peek t = (ctx.peek t).asRead := by
  rcases hheld with rfl | hu
  · rfl
  by_cases hd : ctx.delim = some .autoQuote
  · have hsome : ctx.delim.isSome = true := by rw [hd]; rfl
    have hread : ctx.asRead.delim.isSome = true := by rw [asRead, hd]; rfl
    obtain ⟨rest, rfl, hopen⟩ := hu.exists_reference hsome
    rw [peek, advance_openReference_last hread hopen, peek, advance_openReference_last hsome hopen,
      feedAll_asRead]
  · have hpeek : (ctx.peek t).delim ≠ some .autoQuote := delim_advance hd t
    rw [asRead_eq_self hd, asRead_eq_self hpeek]

/-- **The closing quote is read as the end of the value.** -/
theorem reread_finish (hheld : t = [] ∨ ctx.Undecided t) :
    ctx.asRead.advance true (t ++ (ctx.peek t).finish.2)
      = ⟨(ctx.peek t).finish.1, t ++ (ctx.peek t).finish.2, []⟩ := by
  by_cases hd : ctx.delim = some .autoQuote
  case neg =>
    have hpeek : (ctx.peek t).delim ≠ some .autoQuote := delim_advance hd t
    rw [finish, if_neg hpeek, List.append_nil, asRead_eq_self hd, advance_held hheld]
  have hread : ctx.asRead.delim = some .doubleQuote := by rw [asRead, hd]; rfl
  have hquote {ctx : Context} (hd : ctx.delim = some .doubleQuote) :
      ctx.advance true ['"'] = ⟨ctx.inTag, ['"'], []⟩ := by
    have hstep : ctx.step true '"' [] = .consumed ctx.inTag ['"'] 1 := by
      simp [step, hd, stepValue]
    rw [advance_consumed hstep]
    rfl
  -- the quote ends the value at once, or after the reference that is open
  rcases hheld with rfl | hu
  · rw [peek_nil, finish, if_pos hd, List.nil_append, hquote hread]
    rfl
  · have hsome : ctx.delim.isSome = true := by rw [hd]; rfl
    obtain ⟨rest, rfl, hopen⟩ := hu.exists_reference hsome
    have hsemi : ';' ∉ rest := fun hmem =>
      absurd ((Html.CharRef.scan_incomplete hopen).1 _ hmem) (by decide)
    have hend : Html.CharRef.scan true (rest ++ ['"']) = Html.CharRef.scan true rest :=
      (Html.CharRef.scan_end true hsemi (by decide) (by decide)).symm
    have hpeek : ctx.peek ('&' :: rest) = ctx.feedAll (meaning rest) := by
      rw [peek, advance_openReference_last hsome hopen]
    have hdelim : (ctx.feedAll (meaning rest)).delim = some .autoQuote :=
      (samePlace_feedAll _ _).delim.trans hd
    have hdelim' : (ctx.asRead.feedAll (meaning rest)).delim = some .doubleQuote :=
      (samePlace_feedAll _ _).delim.trans hread
    rw [hpeek, finish, if_pos hdelim, advance_openReference (by rw [hread]; rfl) hopen hend,
      hquote hdelim', feedAll_asRead]
    rfl

end Context

end SafeMarkup
