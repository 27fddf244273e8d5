import SafeMarkup.Proofs.EndTags
import SafeMarkup.Proofs.Keywords

/-!
# What a slash is after a value

A value in JS code is written as a literal. A number, a word, a string or a list ends an operand, so
a `/` after it is a division, whatever came before it (`leaves_literal`). The brace at the end of an
object is read as the end of a block, after which a `/` starts a regular expression. The value after
such a `/` is no literal any more.
-/

namespace SafeMarkup

/-- What a `/` right after the value's literal is. -/
def Value.slashAfter : Value → Js.Slash
  | .object _ _ _ => .regexp
  | _ => .division

namespace Js

/-- Code after which a `/` is `slash`, whatever came before the code, and which does not go on with
an end tag. -/
structure Leaves (slash : Slash) (t : Text) : Prop where
  slash : ∀ ctx : Context, ctx.state = .js .code → ctx.flags = {} → (ctx.feedAll t).slash = slash
  noEndTag : ∃ c ∈ t, c.toLower ∉ '<' :: '/' :: Html.Element.script.tagName

variable {slash : Slash} {a t : Text} {c : Char}

/-- What comes before does not matter. -/
theorem Leaves.after (h : Leaves slash t) (ha : IsCode a) : Leaves slash (a ++ t) where
  slash ctx hs hf := by
    obtain ⟨hs', hf'⟩ := ha.keeps ctx hs hf
    rw [Context.feedAll_append]
    exact h.slash _ hs' hf'
  noEndTag := by
    obtain ⟨c, hc, hnot⟩ := h.noEndTag
    exact ⟨c, List.mem_append_right a hc, hnot⟩

/-! ### Words and numerals -/

/-- A text that is the end of no keyword makes no keyword of the word before it. -/
theorem precedesRegexp_foldl_push (word : Word) (h : ∀ k ∈ keywords, ¬ t <:+ k) :
    (t.foldl Word.push word).precedesRegexp = false := by
  have hlong (t : Text) : t.foldl Word.push .long = .long := by
    induction t with
    | nil => rfl
    | cons c t ih => exact ih
  -- a short word grows by the text, or becomes too long for a keyword
  have hshort (letters t : Text) : t.foldl Word.push (.short letters) = .short (letters ++ t)
      ∨ t.foldl Word.push (.short letters) = .long := by
    induction t generalizing letters with
    | nil => exact .inl (by simp)
    | cons c t ih =>
      rw [List.foldl_cons, Word.push]
      split
      · simpa using ih (letters ++ [c])
      · exact .inr (hlong t)
  cases word with
  | long => rw [hlong]; rfl
  | short letters =>
    rcases hshort letters t with heq | heq
    · rw [heq, Word.precedesRegexp, Bool.eq_false_iff]
      intro hmem
      exact h _ (List.contains_iff_mem.mp hmem) (List.suffix_append letters t)
    · rw [heq]
      rfl

theorem isWordChar_of_isAlphanum (hc : c.isAlphanum = true) : isWordChar c = true := by
  simp [isWordChar, isAlphanumeric_of_isAlphanum hc]

/-- A letter or digit goes on with the word before it. -/
theorem feed_alphanum {ctx : Context} (hs : ctx.state = .js .code) (hc : c.isAlphanum = true) :
    ctx.feed c = { ctx with
      word := ctx.word.push c
      slash := if (ctx.word.push c).precedesRegexp then .regexp else .division
      lastChar := Context.remembered c } := by
  have hfeed : ctx.feed c = ctx.feedJsCode c := by simp only [Context.feed, hs, Context.feedJs]
  rw [hfeed, Context.feedJsCode_wordChar ctx (isWordChar_of_isAlphanum hc)]

theorem feedAll_word {ctx : Context} (hs : ctx.state = .js .code)
    (ht : ∀ d ∈ c :: t, d.isAlphanum = true) :
    (ctx.feedAll (c :: t)).slash
      = if ((c :: t).foldl Word.push ctx.word).precedesRegexp then .regexp else .division := by
  induction t generalizing ctx c with
  | nil => rw [Context.feedAll_cons, feed_alphanum hs (ht c List.mem_cons_self)]; rfl
  | cons d t ih =>
    obtain ⟨hc, hrest⟩ := List.forall_mem_cons.mp ht
    have hfeed := feed_alphanum hs hc
    rw [Context.feedAll_cons, ih (by rw [hfeed]; exact hs) hrest, hfeed]
    rfl

/-- A word that ends no keyword is an operand. -/
theorem leaves_word (hne : t ≠ []) (ht : t.all Char.isAlphanum = true)
    (hkeyword : ∀ k ∈ keywords, ¬ t <:+ k)
    (hnot : ∃ d ∈ t, d.toLower ∉ '<' :: '/' :: Html.Element.script.tagName) :
    Leaves .division t where
  slash ctx hs _ := by
    obtain ⟨c, rest, rfl⟩ := List.exists_cons_of_ne_nil hne
    rw [feedAll_word hs (List.all_eq_true.mp ht), precedesRegexp_foldl_push ctx.word hkeyword]
    rfl
  noEndTag := hnot

/-- After a digit a slash divides. -/
theorem leaves_digit (hc : c.isDigit = true) : Leaves .division [c] := by
  obtain ⟨halpha, hlower⟩ := isAlpha_of_isDigit hc
  refine leaves_word (List.cons_ne_nil _ _) (by simpa using Html.CharRef.isAlphanum_of_isDigit hc)
    (fun k hk hsuffix => ?_) ⟨c, List.mem_singleton_self c, fun hmem => ?_⟩
  · have hletters : keywords.all (·.all Char.isAlpha) = true := by decide
    have hmem : c ∈ k := hsuffix.subset (List.mem_singleton_self c)
    have := List.all_eq_true.mp (List.all_eq_true.mp hletters k hk) c hmem
    rw [halpha] at this
    cases this
  · have hnone : ('<' :: '/' :: Html.Element.script.tagName).all (!·.isDigit) = true := by decide
    have := List.all_eq_true.mp hnone _ hmem
    rw [hlower, hc] at this
    cases this

/-! ### Literals -/

theorem leaves_stringLiteral (t : Text) : Leaves .division (stringLiteral t) where
  slash ctx hs hf := by rw [feedAll_stringLiteral hs hf]
  noEndTag := ⟨'\'', by simp [stringLiteral], by decide⟩

/-- The closing bracket decides what follows. -/
theorem leaves_brackets {b : Char} (ha : IsCode [c]) (ht : IsCode t)
    (hb : ∀ ctx : Context, ctx.state = .js .code → (ctx.feed b).slash = slash)
    (hnot : c.toLower ∉ '<' :: '/' :: Html.Element.script.tagName) :
    Leaves slash ([c] ++ t ++ [b]) where
  slash ctx hs hf := by
    rw [Context.feedAll_append]
    exact hb _ ((ha.append ht).keeps ctx hs hf).1
  noEndTag := ⟨c, by simp, hnot⟩

/-- After digits a slash divides. -/
theorem leaves_digits (ht : ∀ d ∈ t, d.isDigit = true) (hne : t ≠ []) : Leaves .division t := by
  rw [← List.dropLast_concat_getLast hne]
  refine (leaves_digit (ht _ (List.getLast_mem hne))).after ?_
  refine isCode_of_isToken fun d hd => (isToken_of_isNumeral (isNumeral_of_isDigit ?_)).1
  exact ht d ((List.dropLast_prefix t).subset hd)

theorem leaves_ofNat (n : Nat) : Leaves .division (Text.ofNat n) :=
  leaves_digits (fun _ => isDigit_ofNat) Nat.toDigits_ne_nil

theorem leaves_ofInt (n : Int) : Leaves .division (Text.ofInt n) := by
  cases n with
  | ofNat n => exact leaves_ofNat n
  | negSucc n => exact (leaves_ofNat (n + 1)).after (isCode_token rfl)

/-- A numeral ends in a digit, with or without a decimal point in it. -/
theorem leaves_positional {d : Decimal} (hne : d.digits ≠ [])
    (hd : ∀ c ∈ d.digits, c.isDigit = true) : Leaves .division (d.positional false) := by
  have tokens {t : Text} (ht : ∀ c ∈ t, isNumeral c = true) : IsCode t :=
    isCode_of_isToken fun c hc => (isToken_of_isNumeral (ht c hc)).1
  have hzeros (n : Nat) : ∀ c ∈ List.replicate n '0', c.isDigit = true := by
    intro c hc
    rw [List.eq_of_mem_replicate hc]
    rfl
  unfold Decimal.positional
  split
  · -- no point in it: the digits, and zeros behind them
    simp only [Bool.false_eq_true, ↓reduceIte, List.append_nil]
    refine leaves_digits (fun c hc => ?_) (by simp [hne])
    rcases List.mem_append.mp hc with hc | hc
    · exact hd c hc
    · exact hzeros _ c hc
  split
  · next hlen hpoint =>
    -- there are digits behind the point
    have hdrop : d.digits.drop d.point.toNat ≠ [] := by
      rw [ne_eq, List.drop_eq_nil_iff]
      omega
    refine (leaves_digits (fun c hc => hd c (List.mem_of_mem_drop hc)) hdrop).after
      (tokens fun c hc => ?_)
    rcases List.mem_append.mp hc with hc | hc
    · exact isNumeral_of_isDigit (hd c (List.mem_of_mem_take hc))
    · rw [List.mem_singleton.mp hc]
      rfl
  · -- all of the digits are behind the point
    refine (leaves_digits hd hne).after (tokens fun c hc => ?_)
    rcases List.mem_append.mp hc with hc | hc
    · exact List.all_eq_true.mp (show ['0', '.'].all isNumeral = true by decide) c hc
    · exact isNumeral_of_isDigit (hzeros _ c hc)

/-- After the text of a float a slash divides. -/
theorem leaves_write (x : Binary64) : Leaves .division (Layout.page.write x) := by
  obtain ⟨hne, hdigits⟩ := x.shortest_digits
  have hsign : IsCode (if x.isNegative then ['-'] else []) := by
    split
    · exact isCode_token rfl
    · exact isCode_nil
  simp only [Layout.write]
  split
  · exact leaves_word (t := "NaN".toList) (by decide) (by decide) (by decide) ⟨'N', by decide⟩
  split
  · exact (leaves_word (t := "Infinity".toList) (by decide) (by decide) (by decide)
      ⟨'n', by decide⟩).after hsign
  · exact (leaves_positional hne hdigits).after hsign

theorem leaves_signedLiteral (negative : Bool) (h : Leaves slash t) :
    Leaves slash (signedLiteral negative t) := by
  unfold signedLiteral
  split
  · exact h.after (isCode_token (c := ' ') rfl)
  · exact h

/-- **Only after an object a `/` is no division.** -/
theorem leaves_literal (value : Value) : Leaves value.slashAfter value.literal := by
  rw [Value.literal, Value.literalAt.eq_def]
  cases value with
  | null =>
    exact leaves_word (t := "null".toList) (by decide) (by decide) (by decide) ⟨'n', by decide⟩
  | bool b =>
    cases b with
    | false =>
      exact leaves_word (t := "false".toList) (by decide) (by decide) (by decide) ⟨'f', by decide⟩
    | true =>
      exact leaves_word (t := "true".toList) (by decide) (by decide) (by decide) ⟨'u', by decide⟩
  | int n => exact leaves_signedLiteral _ (leaves_ofInt n)
  | nat n => exact leaves_ofNat n
  | float x => exact leaves_signedLiteral _ (leaves_write x)
  | char c => exact leaves_stringLiteral [c]
  | str t => exact leaves_stringLiteral t
  -- the bracket that closes a list ends an expression
  | list items =>
    refine leaves_brackets (isCode_token rfl)
      (isCode_commaSeparated fun t ht => (isExpression_itemLiteralsAt _ items t ht).toIsCode)
      (fun ctx hs => ?_) (by decide)
    have hspace : isSpace ']' = false := by decide
    have hoperator : isOperator ']' = false := by decide
    have hword : isWordChar ']' = false := by decide
    simp [Context.feed, hs, Context.feedJs, Context.feedJsCode, Context.feedJsToken,
      Context.afterJsChar, hspace, hoperator, hword, Value.slashAfter]
  -- the bracket that closes an object could also be that of a block
  | object _ fields typeName =>
    refine leaves_brackets (isCode_token rfl)
      (isCode_objectFields (isExpression_fieldLiteralsAt _ fields)) (fun ctx hs => ?_) (by decide)
    have hspace : isSpace '\x7d' = false := by decide
    have hoperator : isOperator '\x7d' = true := by decide
    simp [Context.feed, hs, Context.feedJs, Context.feedJsCode, Context.feedJsToken,
      Context.afterJsChar, hspace, hoperator, Value.slashAfter]

end Js

namespace Context

variable {ctx : Context}

/-- In JS code, or after a `/` in it that is a division. -/
def InJsCode (ctx : Context) : Prop :=
  ctx.state = .js .code ∨ (ctx.state = .js .slash ∧ ctx.slash = .division)

theorem InJsCode.isJs (h : ctx.InJsCode) : ctx.state.isJs = true := by
  rcases h with hs | ⟨hs, -⟩ <;> rw [hs] <;> rfl

theorem InJsCode.inCode (h : ctx.InJsCode) : ctx.InCode := .inr (.inl h.isJs)

/-- A value there is written as a literal. -/
theorem InJsCode.ofContext (h : ctx.InJsCode) : Escaper.ofContext ctx = .jsValue := by
  rcases h with hs | ⟨hs, hslash⟩
  · simp [Escaper.ofContext, hs, Escaper.ofJs]
  · simp [Escaper.ofContext, hs, hslash, Escaper.ofJs]

/-- After a literal the cursor is in code, and the literal says what a slash is there. -/
theorem InJsCode.feedAll_literal (h : ctx.InJsCode) (hw : ctx.Remembers) (value : Value) :
    (ctx.feedAll value.literal).state = .js .code
      ∧ (ctx.feedAll value.literal).slash = value.slashAfter := by
  have code (ctx : Context) (hs : ctx.state = .js .code) (hf : ctx.flags = {}) :
      (ctx.feedAll value.literal).state = .js .code
        ∧ (ctx.feedAll value.literal).slash = value.slashAfter :=
    ⟨((Js.isExpression_literal value).keeps ctx hs hf).1,
      (Js.leaves_literal value).slash ctx hs hf⟩
  rcases h with hs | ⟨hs, hslash⟩
  · exact code ctx hs (hw.flags_eq (by rw [hs]; rfl) (by simp [hs]) (by simp [hs]))
  · obtain ⟨c, rest, hcons, hc, hc'⟩ := (Js.isExpression_literal value).first
    have hliteral := code { ctx with state := .js .code, slash := .regexp, lastChar := '/' }
      rfl (hw.flags_eq (by rw [hs]; rfl) (by simp [hs]) (by simp [hs]))
    rwa [hcons, ← feedAll_slash_division hs hslash hc hc', ← hcons] at hliteral

/-- What a value after a `/` is escaped for. -/
theorem ofContext_feed_slash (hs : ctx.state = .js .code) :
    Escaper.ofContext (ctx.feed '/')
      = match ctx.slash with
        | .division => .jsValue
        | .regexp => .jsRegexp := by
  have hword : Js.isWordChar '/' = false := by decide
  cases hslash : ctx.slash <;>
    simp [feed, hs, feedJs, feedJsCode, afterJsChar, Escaper.ofContext, Escaper.ofJs, hslash, hword]

end Context

namespace Writer

variable {w : Writer}

/-- A `/` in code is read as such. -/
theorem context_writeTrusted_slash (hopen : w.closed = false)
    (hcode : w.context.InCode) (hheld : w.held.text = []) :
    (w.writeTrusted ['/']).writer.context = w.context.feed '/' := by
  have hdecided := context_eq_decided hheld
  rw [hdecided] at hcode ⊢
  rw [writeTrusted_eq hopen, advance_eq_of_held hheld hcode.advance_slash rfl]
  exact context_eq_decided hheld

/-- In JS code the literal of a value is all that is read for it. -/
theorem readText_eq_literal (hserializer : w.serializer = .default) (hjs : w.context.InJsCode)
    (value : Value) : w.readText value = value.literal := by
  have hback : w.context.secondBackslash = [] := by
    have hescapes : w.context.state.allowsEscapes = false := by
      rcases hjs with hs | ⟨hs, -⟩ <;> rw [hs] <;> rfl
    simp [Context.secondBackslash, Context.hasPartialEscape_of_state hescapes]
  rw [readText, Context.readFor, hback, hserializer, hjs.ofContext]
  rfl

theorem ne_of_mem_escape_code (hserializer : w.serializer = .default) (hjs : w.context.InJsCode)
    (value : Value) : ∀ c ∈ (Escaper.ofContext w.context).escape
      { soft := w.soft, schemes := w.schemes }
      (valueText w.serializer (Escaper.ofContext w.context) value), c ≠ '<' ∧ c ≠ '\x00' := by
  rw [hserializer]
  exact fun _ hc => Context.ne_of_mem_escape (Context.isSinglePass_ofContext hjs.inCode) hc

/-- A literal does not go on with an end tag, though it can end the name of one. -/
theorem not_startsEndTag_literal (hserializer : w.serializer = .default)
    (hjs : w.context.InJsCode) (hin : w.context.InContent .script) (value : Value) :
    ¬ Html.Element.script.StartsEndTag (w.held.text ++ w.escapeValue value) := by
  intro hstarts
  rw [escapeValue_eq_readText hjs.inCode hin.delim, readText_eq_literal hserializer hjs] at hstarts
  obtain ⟨c, hc, hnot⟩ := (Js.leaves_literal value).noEndTag
  exact hnot (hstarts.toLower_mem (List.mem_append_right _ hc))

/-- **What a `/` is after a value in JS code.** It is a division, and a value after it is written as
a literal again, unless the value is an object or ends the script. A value that there is no memory
for changes nothing. -/
theorem slash_after_writeValue (hw : Reachable w) (hserializer : w.serializer = .default)
    (hopen : w.closed = false) (hjs : w.context.InJsCode) (value : Value) :
    let written := w.writeValue value
    let next := written.writer
    let text := w.held.text ++ w.escapeValue value
    ((∃ e, written.error = some (.heldTextLimit e)) → next.context = w.context)
      ∧ ((∀ e, written.error ≠ some (.heldTextLimit e)) →
        (¬ Html.Element.script.Closes text →
          next.context.state = .js .code ∧ next.context.slash = value.slashAfter
            ∧ Escaper.ofContext (next.writeTrusted ['/']).writer.context
              = match value.slashAfter with
                | .division => .jsValue
                | .regexp => .jsRegexp)
          ∧ (Html.Element.script.Closes text → ¬ next.context.InContent .script)) := by
  have hvalid := hw.valid
  have hwf := hvalid.wellFormed_context
  have hcode := hjs.inCode
  have hread := readText_eq_literal hserializer hjs value
  have hclean := ne_of_mem_escape_code hserializer hjs value
  dsimp only
  refine ⟨?_, fun hlimit => ⟨fun hopenTag => ?_, fun hcloses hin => ?_⟩⟩
  · rintro ⟨e, he⟩
    obtain ⟨hdecided, hheld⟩ := kept_of_refused_inCode hw hopen hcode value hclean he
    rw [context, hdecided, hheld, ← context]
  · obtain ⟨hcontext, hheld⟩ := read_writeValue hw hopen hcode value hclean hlimit
      fun element hin => by
        obtain rfl := hwf.eq_script hjs.isJs hin
        exact ⟨hopenTag, not_startsEndTag_literal hserializer hjs hin value⟩
    obtain ⟨hstate, hslash⟩ := hjs.feedAll_literal hwf.remembers value
    rw [← hread, ← hcontext] at hstate hslash
    refine ⟨hstate, hslash, ?_⟩
    rw [context_writeTrusted_slash (closed_writeValue hvalid hopen value)
        (.inr (.inl (by rw [hstate]; rfl))) hheld,
      Context.ofContext_feed_slash hstate, hslash]
  · by_cases hd : w.context.delim = none
    · have hcontent := hwf.inContent_script hd hjs.isJs
      have hvalue : '<' ∉ w.escapeValue value :=
        lt_notMem_escapeValue hcontent (by rw [hserializer]; exact lt_notMem_literal) value
      exact not_inContent_of_closes hw hopen hcontent rfl hvalue hlimit hcloses hin
    -- the value of an attribute goes on
    · have hcontext := (read_writeValue hw hopen hcode value hclean hlimit
        fun _ hcontent => absurd hcontent.delim hd).1
      rw [hcontext] at hin
      exact hd ((Context.samePlace_feedAll _ _).delim.symm.trans hin.delim)

/-- After a division comes a list, and after the list a `/` is a division again. -/
theorem division_after_list :
    let w := startingWith "<script>x = y /".toList
    let value := Value.list [.int (-7)]
    let next := (w.writeValue value).writer
    w.closed = false ∧ w.context.state = .js .slash ∧ w.context.slash = .division
      ∧ (w.writeValue value).error = none
      ∧ next.context.slash = .division
      ∧ Escaper.ofContext (next.writeTrusted ['/']).writer.context = .jsValue := by
  intro w value next
  have hopen : w.closed = false := by decide +kernel
  have hjs : w.context.state = .js .slash ∧ w.context.slash = .division :=
    ⟨by decide +kernel, by decide +kernel⟩
  have hsent : (w.writeValue value).error = none := by decide +kernel
  -- the value has no `<`, so it is no end tag
  have hcloses : ¬ Html.Element.script.Closes (w.held.text ++ w.escapeValue value) := by
    have hwritten : w.held.text ++ w.escapeValue value = "[ -7]".toList := by decide +kernel
    rw [hwritten]
    rintro ⟨name, d, rest, heq, -⟩
    cases heq
  obtain ⟨-, hwritten⟩ := slash_after_writeValue (reachable_startingWith "<script>x = y /".toList)
    rfl hopen (.inr hjs) value
  obtain ⟨hslash, -⟩ := hwritten fun e he => Option.some_ne_none _ (he.symm.trans hsent)
  obtain ⟨-, hdivision, hescaper⟩ := hslash hcloses
  exact ⟨hopen, hjs.1, hjs.2, hsent, hdivision, hescaper⟩

/-- **After an object a `/` starts a regular expression**, so that the next value is no literal. -/
theorem regexp_after_object :
    let w := startingWith "<script>x = ".toList
    let value := Value.object "o".toList [] none
    let next := (w.writeValue value).writer
    Reachable w ∧ w.serializer = .default ∧ w.closed = false ∧ w.context.state = .js .code
      ∧ (w.writeValue value).error = none
      ∧ next.context.slash ≠ .division
      ∧ Escaper.ofContext (next.writeTrusted ['/']).writer.context = .jsRegexp :=
  ⟨reachable_startingWith "<script>x = ".toList, rfl, by decide +kernel, by decide +kernel,
    by decide +kernel, by decide +kernel, by decide +kernel⟩

end Writer

end SafeMarkup
