import SafeMarkup.Proofs.AddedQuotes
import SafeMarkup.Proofs.Reread

/-!
# Trusted text is copied

What a step writes is the text that it decides on, rewritten where a value has been put in quotes
(`rewritten_step`). So a text goes out up to what is held back of it (`written_advance`), and a
writer that is given trusted text only has always sent, or holds back, all of that text
(`Copied.run`).
-/

namespace SafeMarkup

/-- A text with references in place of its double quotes. -/
def replaceQuotes (t : Text) : Text := t.flatMap fun c => if c = '"' then "&#34;".toList else [c]

/-- Before the value ends only its quotes are replaced. -/
theorem quoteValue_append_of_open {a : Text} (ha : ∀ c ∈ a, Delim.autoQuote.endsAt c = false)
    (b : Text) : quoteValue (a ++ b) = replaceQuotes a ++ quoteValue b := by
  induction a with
  | nil => rfl
  | cons c a ih =>
    obtain ⟨hc, ha⟩ := List.forall_mem_cons.mp ha
    have hcons : replaceQuotes (c :: a)
        = (if c = '"' then "&#34;".toList else [c]) ++ replaceQuotes a := List.flatMap_cons
    rw [List.cons_append, quoteValue, if_neg (by simp [hc]), ih ha, hcons]
    by_cases hquote : c = '"'
    · rw [if_pos hquote, if_pos hquote, List.append_assoc]
    · rw [if_neg hquote, if_neg hquote]
      rfl

namespace Context

variable {ctx next : Context} {last : Bool} {c : Char} {rest t w : Text} {u : Nat}

@[simp] theorem rewritten_nil (ctx : Context) : ctx.rewritten [] = [] := by
  unfold rewritten
  split <;> rfl

/-! ### Steps -/

/-- In a value that has been put in quotes, other characters than quotes go out as they are. -/
theorem rewritten_stepValueChar (hend : Delim.autoQuote.endsAt c = false) (hquote : c ≠ '"')
    (h : ctx.stepValueChar last c rest = .consumed next w u) (p : Text) :
    quoteValue ((c :: rest).take u ++ p) = w ++ quoteValue p := by
  -- a single character that is no quote is copied
  have hone : quoteValue ([c] ++ p) = [c] ++ quoteValue p :=
    quoteValue_append (by simp [hend, hquote]) p
  unfold stepValueChar stepChar at h
  split at h
  · split at h
    · next length char hscan =>
      cases h
      obtain ⟨n, rfl⟩ := Nat.exists_eq_succ_of_ne_zero
        (Nat.ne_of_gt (Html.CharRef.scan_length hscan).1)
      -- no character of a reference is a quote or ends the value
      refine quoteValue_append (List.forall_mem_cons.mpr ⟨⟨hend, hquote⟩, fun d hd => ?_⟩) p
      exact Html.CharRef.kept_of_isRefChar (Html.CharRef.mem_of_scan hscan d hd)
    · cases h
    · cases h
      exact hone
  · cases h
    exact hone

/-- **A step writes what it decides on**, rewritten in a value that has been put in quotes. What
comes after it is rewritten if the value goes on. -/
theorem rewritten_step (h : ctx.step last c rest = .consumed next w u) (p : Text) :
    ctx.rewritten ((c :: rest).take u ++ p) = w ++ next.rewritten p := by
  by_cases hd : ctx.delim = some .autoQuote
  case neg =>
    obtain ⟨-, -, rfl⟩ := copies_step hd next w u h
    rw [rewritten_of_ne hd, rewritten_of_ne ((next_of_step h).delim_ne hd)]
  rw [rewritten_autoQuote hd]
  -- the value ends at this character, or the character is one of it
  cases hend : Delim.autoQuote.endsAt c with
  | true =>
    obtain ⟨next', hstep, hnone⟩ := step_valueEnd hd hend last rest
    cases h.symm.trans hstep
    rw [rewritten_of_ne (delim_ne_of_eq_none hnone)]
    show quoteValue (c :: p) = ['"', c] ++ p
    rw [quoteValue, if_pos hend]
    rfl
  | false =>
    have hnext : next.delim = some .autoQuote := by
      cases next_of_step h with
      | inValue => rw [(samePlace_feed ctx _).delim, hd]
      | valueEnd delim hd' hc =>
        obtain rfl : delim = .autoQuote := Option.some.inj (hd'.symm.trans hd)
        rw [hend] at hc
        cases hc
      | _ => exact absurd ‹ctx.delim = none› (by simp [hd])
    rw [rewritten_autoQuote hnext]
    have hstep : ctx.step last c rest = ctx.stepValue .autoQuote last c rest := by rw [step, hd]
    have hends : c ≠ '>' ∧ isHtmlSpace c = false := by simpa [Delim.endsAt] using hend
    rw [stepValue, if_neg hends.1, if_neg (by simp [hends.2])] at hstep
    -- only a quote is replaced in the value
    by_cases hquote : c = '"'
    · rw [if_pos hquote] at hstep
      cases h.symm.trans hstep
      show quoteValue (c :: p) = _
      rw [quoteValue, if_neg (by simp [hend]), if_pos hquote]
    · rw [if_neg hquote] at hstep
      exact rewritten_stepValueChar hend hquote (hstep ▸ h) p

/-! ### Texts -/

/-- **A text goes out up to what is held back of it.** -/
theorem written_advance (ctx : Context) (last : Bool) (t : Text) :
    ∃ p, t = p ++ (ctx.advance last t).held ∧ (ctx.advance last t).written = ctx.rewritten p := by
  induction ctx, t using advance_induction last with
  | nil ctx => exact ⟨[], rfl, ctx.rewritten_nil.symm⟩
  | consumed ctx c rest next w u hstep ih =>
    obtain ⟨p, hp, hwritten⟩ := ih
    have hdrop : (c :: rest).drop u = rest.drop (u - 1) := by
      obtain ⟨n, rfl⟩ := Nat.exists_eq_succ_of_ne_zero (Nat.ne_of_gt (used_of_step hstep).1)
      rfl
    rw [advance_consumed hstep, after_held, after_written]
    refine ⟨(c :: rest).take u ++ p, ?_, ?_⟩
    · rw [List.append_assoc, ← hp, ← hdrop, List.take_append_drop]
    · rw [rewritten_step hstep, hwritten]
  | blocked ctx c rest next hstep =>
    rw [advance_blocked hstep]
    exact ⟨[], rfl, ctx.rewritten_nil.symm⟩

end Context

namespace Writer

variable {w : Writer} {bytesOf : Char → List UInt8} {start : List UInt8} {text : Text}

/-! ### Runs with trusted text -/

/-- The writer has been given `text`, all of it trusted, and has sent all but what it holds back. -/
structure Copied (bytesOf : Char → List UInt8) (start : List UInt8) (text : Text) (w : Writer) :
    Prop where
  opened : w.closed = false
  coded : w.output.charset.Encodes bytesOf
  bare : w.decided.delim ≠ some .autoQuote
  unsent : w.unsent = []
  recorded : w.sent ++ w.held.text.flatMap bytesOf = start ++ text.flatMap bytesOf

/-- What is sent without an error has arrived. -/
theorem sent_sendDecided (hcoded : w.output.charset.Encodes bytesOf)
    (hok : w.sendDecided.error = none) :
    w.sendDecided.writer.sent = w.sent ++ w.unsent.flatMap bytesOf :=
  Output.sent_write hcoded (Option.map_eq_none_iff.mp hok)

/-- **A call with trusted text copies it.** -/
theorem Copied.writeTrusted (h : Copied bytesOf start text w) {t : Text}
    (hok : (w.writeTrusted t).error = none) :
    Copied bytesOf start (text ++ t) (w.writeTrusted t).writer := by
  rw [writeTrusted_eq h.opened] at hok ⊢
  generalize ho : w.advance t = outcome at hok ⊢
  cases ho ▸ advances w t with
  | sent p hp held hheld =>
    -- what is decided and what is held back are the whole text
    have hall : p.written ++ p.held = w.held.text ++ t := by
      rw [← hp]
      exact Context.written_append_held h.bare _
    have hsent := sent_sendDecided (w := { w.record p.context p.written with held }) h.coded hok
    refine ⟨h.opened, (Output.charset_write _ _).symm ▸ h.coded, ?_, rfl, ?_⟩
    · show p.context.delim ≠ some .autoQuote
      rw [← hp]
      exact Context.delim_advance h.bare _
    · -- first what was unsent, then the decided part, then what is held back
      calc _ = (w.sent ++ (w.unsent ++ p.written).flatMap bytesOf)
            ++ held.text.flatMap bytesOf := congrArg (· ++ _) hsent
        _ = w.sent ++ (w.held.text ++ t).flatMap bytesOf := by
            rw [h.unsent, List.nil_append, hheld, List.append_assoc, ← List.flatMap_append, hall]
        _ = start ++ (text ++ t).flatMap bytesOf := by
            rw [List.flatMap_append, ← List.append_assoc, h.recorded, List.flatMap_append,
              List.append_assoc]
  | lost => cases hok
  | refused => cases hok

/-- **A run with trusted text copies it.** -/
theorem Copied.run (h : Copied bytesOf start text w) {pieces : List Text}
    (hok : (w.run (pieces.map .writeTrusted)).error = none) :
    Copied bytesOf start (text ++ pieces.flatten)
      (w.run (pieces.map .writeTrusted)).writer := by
  induction pieces generalizing w text with
  | nil =>
    rw [List.flatten_nil, List.append_nil]
    exact h
  | cons t pieces ih =>
    rw [List.map_cons, Writer.run] at hok ⊢
    obtain ⟨hfirst, hrest⟩ := Outcome.error_andThen.mp hok
    rw [Outcome.andThen_ok hfirst, List.flatten_cons, ← List.append_assoc]
    exact ih (h.writeTrusted hfirst) hrest

/-- At the end the rest of the text is copied. -/
theorem Copied.close (h : Copied bytesOf start text w) (hok : w.close.error = none) :
    w.close.writer.sent = start ++ text.flatMap bytesOf := by
  rw [close_eq h.opened] at hok ⊢
  obtain ⟨hflushed, -⟩ := Outcome.error_andThen.mp hok
  obtain ⟨hsent, -⟩ := Outcome.error_andThen.mp hflushed
  rw [Outcome.andThen_ok hflushed, Outcome.andThen_ok hsent, sent_callSink, sent_callSink]
  -- there are no added quotes, so what was held back is all that closing adds
  have hcompletion : w.completion = w.held.text := by
    have hall : (w.decided.advance true w.held.text).written
        ++ (w.decided.advance true w.held.text).held = w.held.text :=
      Context.written_append_held h.bare _
    rw [Context.held_of_last, List.append_nil] at hall
    have hfinish : (w.decided.advance true w.held.text).context.finish.2 = [] := by
      rw [Context.finish, if_neg (Context.delim_advance h.bare _)]
    rw [completion, hall, hfinish, List.append_nil]
  have hsent' := sent_sendDecided (w := w.completed) h.coded hsent
  rw [unsent_completed, h.unsent, List.nil_append, hcompletion] at hsent'
  calc _ = w.completed.sendDecided.writer.sent := by simp [SinkCall.bytes]
    _ = w.sent ++ w.held.text.flatMap bytesOf := hsent'
    _ = start ++ text.flatMap bytesOf := h.recorded

/-- **Trusted text is copied without loss, duplication or change.** A text goes out up to what is
held back of it. In a value that has been put in quotes its quotes are replaced up to where the
value ends, and there the closing quote is added. So in a run with trusted text only, what the sink
has got and what is held back are together the text in the encoding of the output, and after the
document is closed all of the text has arrived. -/
theorem trusted_text_is_copied :
    (∀ (ctx : Context) (last : Bool) (t : Text), ∃ p,
      t = p ++ (ctx.advance last t).held
        ∧ (last = true → (ctx.advance last t).held = [])
        ∧ (ctx.delim ≠ some .autoQuote → (ctx.advance last t).written = p)
        ∧ (ctx.delim = some .autoQuote → (∀ c ∈ p, c ≠ '>' ∧ isHtmlSpace c = false) →
            (ctx.advance last t).written = replaceQuotes p)
        ∧ (ctx.delim = some .autoQuote → ∀ before c after, p = before ++ c :: after →
            (∀ d ∈ before, d ≠ '>' ∧ isHtmlSpace d = false) → c = '>' ∨ isHtmlSpace c = true →
            (ctx.advance last t).written = replaceQuotes before ++ '"' :: c :: after)) ∧
    ∀ (settings : Settings) (sink : Sink) (serializer : Serializer) (pieces : List Text)
      (bytesOf : Char → List UInt8), settings.charset.Encodes bytesOf →
      ((new settings sink serializer).run (pieces.map .writeTrusted)).error = none →
      let w := ((new settings sink serializer).run (pieces.map .writeTrusted)).writer
      w.sent ++ w.held.text.flatMap bytesOf = sink.sent ++ pieces.flatten.flatMap bytesOf
        ∧ (w.close.error = none →
            w.close.writer.sent = sink.sent ++ pieces.flatten.flatMap bytesOf) := by
  refine ⟨fun ctx last t => ?_, fun settings sink serializer pieces bytesOf hcoded hok => ?_⟩
  · obtain ⟨p, hp, hwritten⟩ := ctx.written_advance last t
    -- the two kinds of characters that end a value, as its delimiter has them
    have hgoesOn {t : Text} (ht : ∀ c ∈ t, c ≠ '>' ∧ isHtmlSpace c = false) :
        ∀ c ∈ t, Delim.autoQuote.endsAt c = false :=
      fun c hc => by simpa [Delim.endsAt] using ht c hc
    refine ⟨p, hp, fun hlast => ?_, fun hd => ?_, fun hd hopen => ?_,
      fun hd before c after hsplit hbefore hc => ?_⟩
    · rw [hlast]
      exact ctx.held_of_last t
    · rw [hwritten, Context.rewritten_of_ne hd]
    · rw [hwritten, Context.rewritten_autoQuote hd, ← List.append_nil p,
        quoteValue_append_of_open (hgoesOn hopen), quoteValue, List.append_nil, List.append_nil]
    · have hend : Delim.autoQuote.endsAt c = true := by simpa [Delim.endsAt] using hc
      rw [hwritten, Context.rewritten_autoQuote hd, hsplit,
        quoteValue_append_of_open (hgoesOn hbefore), quoteValue, if_pos hend]
  · have hnew : Copied bytesOf sink.sent [] (new settings sink serializer) :=
      ⟨rfl, hcoded, by simp [new], rfl, rfl⟩
    have hrun := hnew.run hok
    exact ⟨hrun.recorded, hrun.close⟩

/-- A tag that is cut in the name of an attribute, and in a reference that is never completed, in a
code page that has one of its characters and does not have another; and the end of a value that has
been put in quotes. -/
theorem cut_tag_is_copied :
    let page := CodePage.windows1252
    let settings : Settings := { charset := .other page.name page.encode }
    let sink : Sink := { failure? := fun _ _ => none }
    let calls : List Call := [.writeTrusted "<a ti".toList, .writeTrusted "tle=é☃&am".toList]
    let outcome := (new settings sink).run calls
    let quoted := (Context.advance {} false "<a title=".toList).context.beginValue.1
    settings.charset.Encodes (charBytes page.byte?)
      ∧ outcome.error = none
      ∧ outcome.writer.sent ++ "&am".toList.flatMap (charBytes page.byte?)
          = "<a title=é☃&am".toList.flatMap (charBytes page.byte?)
      ∧ outcome.writer.close.error = none
      ∧ outcome.writer.close.writer.sent = "<a title=é☃&am".toList.flatMap (charBytes page.byte?)
      ∧ (quoted.advance false "x\"y z=\"".toList).written = "x&#34;y\" z=\"".toList := by
  intro page settings sink calls outcome quoted
  have hcoded : settings.charset.Encodes (charBytes page.byte?) := page.encodes
  have hok : outcome.error = none := by decide +kernel
  have hclose : outcome.writer.close.error = none := by decide +kernel
  obtain ⟨hsent, hclosed⟩ := trusted_text_is_copied.2 settings sink .default
    ["<a ti".toList, "tle=é☃&am".toList] _ hcoded hok
  have hheld : outcome.writer.held.text = "&am".toList := by decide +kernel
  obtain ⟨p, hp, -, -, -, hend⟩ := trusted_text_is_copied.1 quoted false "x\"y z=\"".toList
  have hnone : (quoted.advance false "x\"y z=\"".toList).held = [] := by decide +kernel
  rw [hnone, List.append_nil] at hp
  have hopen : ∀ d ∈ "x\"y".toList, d ≠ '>' ∧ isHtmlSpace d = false := by simp [isHtmlSpace]
  refine ⟨hcoded, hok, hheld ▸ hsent, hclose, hclosed hclose, ?_⟩
  exact hend (by decide +kernel) "x\"y".toList ' ' "z=\"".toList hp.symm hopen (.inr (by decide))

end Writer

end SafeMarkup
