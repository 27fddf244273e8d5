import SafeMarkup.Proofs.AddedQuotes
import SafeMarkup.Proofs.Replacement

/-!
# The output describes itself

A writer follows what it is given, and writes something else: it puts values in quotes, replaces
quotes inside, and completes references. Nevertheless a reader of the output who knows nothing of
the writer is always at the same place as the writer (`Described`), except that added quotes look
like all others.
-/

namespace SafeMarkup

namespace Context

variable {ctx : Context} {out held : Text}

/-- Following `out`, with `held` after it, a reader comes to the context, and holds back `held`. -/
def Describes (out held : Text) (ctx : Context) : Prop :=
  advance {} false (out ++ held) = ⟨ctx.asRead, out, held⟩

/-! ### What a writer does next -/

theorem Describes.advance (h : Describes out held ctx)
    (hheld : held = [] ∨ ctx.Undecided held) (t : Text) :
    Describes (out ++ (ctx.advance false (held ++ t)).written)
      (ctx.advance false (held ++ t)).held (ctx.advance false (held ++ t)).context := by
  -- what is held back is not rewritten, what comes after it may be
  have hrewritten : ctx.rewritten (held ++ t) = held ++ ctx.rewritten t := by
    by_cases hd : ctx.delim = some .autoQuote
    · rw [rewritten_autoQuote hd, rewritten_autoQuote hd]
      rcases hheld with rfl | hu
      · rfl
      · exact quoteValue_of_undecided hd hu t
    · rw [rewritten_of_ne hd, rewritten_of_ne hd]
  have hreread := ctx.reread (held ++ t)
  -- a reader sees no added quotes, so it takes nothing away and adds nothing
  have hread : ctx.asRead.delim ≠ some .autoQuote := by
    rw [asRead]
    cases ctx.delim with
    | none => simp
    | some delim => cases delim <;> simp [Delim.asRead]
  have hwritten : (ctx.asRead.advance false (ctx.rewritten (held ++ t))).written
      ++ (ctx.asRead.advance false (ctx.rewritten (held ++ t))).held = ctx.rewritten (held ++ t) :=
    written_append_held hread _
  rw [hreread] at hwritten
  have hall := advance_append {} false (out ++ held) (ctx.rewritten t)
  rw [h, ← hrewritten, hreread, List.append_assoc, ← hrewritten, ← hwritten] at hall
  rw [Describes, List.append_assoc]
  exact hall

/-- Quotes are opened. -/
theorem Describes.quoted (h : Describes out [] ctx) (hd : ctx.delim = none)
    (hs : ctx.state = .beforeValue) : Describes (out ++ ['"']) [] (ctx.attrValue .autoQuote) := by
  have hstep : ctx.step false '"' [] = .consumed (ctx.attrValue .doubleQuote) ['"'] 1 := by
    simp [step, hd, hs, stepBeforeValue]
  have hquote : ctx.advance false ['"'] = ⟨(ctx.attrValue .autoQuote).asRead, ['"'], []⟩ := by
    rw [advance_consumed hstep]
    rfl
  have hall := advance_append {} false (out ++ []) ['"']
  rw [h, asRead_eq_self (delim_ne_of_eq_none hd), List.nil_append, hquote, List.append_nil] at hall
  rw [Describes, List.append_nil]
  exact hall

/-- A reference is completed. -/
theorem Describes.reference (h : Describes out held ctx) (hd : ctx.delim.isSome = true)
    (hu : ctx.Undecided held) :
    Describes (out ++ (ctx.terminateCharRef held).2) [] (ctx.terminateCharRef held).1 := by
  have hread := reread_terminateCharRef hd hu
  -- both start with an `&`, and nothing before an `&` looks past it
  obtain ⟨rest, rfl, hopen⟩ := hu.exists_reference hd
  obtain ⟨rest', hcompleted⟩ := exists_amp_terminateCharRef hd hopen
  rw [hcompleted] at hread ⊢
  rw [Describes, List.append_nil, advance_replaced h rest', hread]
  rfl

/-- The document is completed. -/
theorem Describes.finish (h : Describes out held ctx) (hheld : held = [] ∨ ctx.Undecided held) :
    Context.advance {} true (out ++ (held ++ (ctx.peek held).finish.2))
      = ⟨(ctx.peek held).finish.1, out ++ (held ++ (ctx.peek held).finish.2), []⟩ := by
  rw [← List.append_assoc, advance_append, h, reread_finish hheld, List.append_assoc]
  rfl

end Context

namespace Writer

variable {w : Writer} {start : List UInt8} {pieces : List Piece}

/-- The writer has written `pieces` since the sink had got `start`, and they describe it. -/
structure Described (start : List UInt8) (pieces : List Piece) (w : Writer) : Prop where
  opened : w.closed = false
  charset : w.output.charset = .utf8
  recorded : w.sent ++ Text.utf8Bytes w.unsent
    = start ++ Text.utf8Bytes (pieces.flatMap Piece.text)
  describes : Context.Describes (pieces.flatMap Piece.text) w.held.text w.decided
  paired : Paired false pieces w.decided.isQuoted

theorem Described.record (h : Described start pieces w) {next : Context} {more : List Piece}
    {written : Text} (hmore : more.flatMap Piece.text = written) {held : HeldText}
    (hdescribes : Context.Describes (pieces.flatMap Piece.text ++ written) held.text next)
    (hpaired : Paired w.decided.isQuoted more next.isQuoted) :
    Described start (pieces ++ more) { w.record next written with held } := by
  have hall : (pieces ++ more).flatMap Piece.text = pieces.flatMap Piece.text ++ written := by
    rw [List.flatMap_append, hmore]
  refine ⟨h.opened, h.charset, ?_, hall ▸ hdescribes, h.paired.append hpaired⟩
  show w.sent ++ Text.utf8Bytes (w.unsent ++ written) = _
  rw [hall, Text.utf8Bytes_append, Text.utf8Bytes_append, ← List.append_assoc, h.recorded,
    List.append_assoc]

/-- Sending changes nothing of what the output says. -/
theorem Described.sendDecided (h : Described start pieces w) :
    Described start pieces w.sendDecided.writer where
  opened := h.opened
  charset := (Output.charset_write _ _).trans h.charset
  recorded := by
    show (w.output.write w.unsent).1.sink.sent ++ Text.utf8Bytes [] = _
    rw [Output.sent_write_utf8 h.charset, ← h.recorded]
    exact List.append_nil _
  describes := h.describes
  paired := h.paired

/-- Made ready for an untrusted value, the writer is still described. -/
theorem Described.ready (h : Described start pieces w) (hv : Valid w) :
    Described start (pieces ++ w.readyPieces) w.ready := by
  have hprepares := prepares hv
  -- by what had to be done: nothing, opening quotes, or completing a reference
  generalize w.ready = w' at *
  cases hprepares with
  | asIs hs hheld =>
    have hterm := terminateCharRef_eq_self hheld
    have hnone : w.readyPieces = [] := by
      rw [readyPieces, hterm, begunPieces, if_neg hs, completedPieces, if_neg]
      · rfl
      · rcases hheld with hnone | hin <;> simp_all [HeldText.isEmpty]
    rw [hnone, List.append_nil]
    exact h
  | quoted hs hheld =>
    have hterm := terminateCharRef_eq_self (Or.inl hheld)
    have hdelim : w.decided.delim = none := by
      obtain ⟨kind, heq⟩ := hv.wellFormed.of_attr (by rw [hs]; rfl)
      rw [heq]
    have hopening : w.readyPieces = [.opening] := by
      have hcontext : w.context.state = .beforeValue := by rwa [context, hheld, Context.peek_nil]
      have hresolved : w.resolveHeld.decided = w.decided := by rw [resolveHeld, hheld]; rfl
      rw [readyPieces, hterm, begunPieces, if_pos hcontext, hresolved, if_pos hs, hheld,
        completedPieces, if_neg (by simp [HeldText.isEmpty, hheld])]
      rfl
    have hpaired : Paired w.decided.isQuoted [.opening] true := by
      rw [Context.isQuoted_eq_false (Context.delim_ne_of_eq_none hdelim)]
      exact .opening (.nil true)
    rw [hopening]
    refine h.record rfl ?_ hpaired
    have hdescribes := h.describes
    rw [hheld] at hdescribes
    exact hdescribes.quoted hdelim hs
  | reference hd hheld =>
    -- in a value the completed reference stays in that value
    have hsame : (w.decided.terminateCharRef w.held.text).1.isQuoted = w.decided.isQuoted := by
      obtain ⟨rest, hrest, hopen⟩ := hheld.exists_reference hd
      rw [Context.terminateCharRef_context, hrest, Context.peek,
        Context.advance_openReference_last hd hopen, Context.isQuoted,
        (Context.samePlace_feedAll _ _).delim, Context.isQuoted]
    have hcompleted : w.readyPieces = [.other (w.decided.terminateCharRef w.held.text).2] := by
      rw [readyPieces, begunPieces, if_neg (hv.state_terminateCharRef hd hheld), completedPieces,
        if_pos, List.append_nil]
      simpa [hd, HeldText.isEmpty] using hheld.ne_nil
    rw [hcompleted]
    refine h.record (List.append_nil _) (h.describes.reference hd hheld) ?_
    rw [hsame]
    exact .other _ (.nil _)

/-- **Following a text keeps a writer described.** -/
theorem Described.advance (h : Described start pieces w) (hv : Valid w) {text : Text}
    (hok : (w.advance text).error = none) :
    Described start (pieces ++ w.decided.pieces false (w.held.text ++ text))
      (w.advance text).writer := by
  generalize ho : w.advance text = outcome at hok ⊢
  cases ho ▸ advances w text with
  | sent p hp held hheld =>
    subst hp
    refine (h.record (Context.text_pieces _ _ _) ?_ (Context.paired_pieces _ _ _)).sendDecided
    rw [hheld]
    exact h.describes.advance hv.held text
  | lost => cases hok
  | refused => cases hok

/-- **A call keeps a writer described.** -/
theorem Described.perform (h : Described start pieces w) (hv : Valid w) (hunsent : w.unsent = [])
    {call : Call} (hopen : call ≠ .close) (hok : (w.perform call).error = none) :
    Described start (pieces ++ w.pieces call) (w.perform call).writer
      ∧ (w.perform call).writer.unsent = [] := by
  -- after a text has been sent nothing is left unsent
  have hsent {w : Writer} {text : Text} (hok : (w.advance text).error = none) :
      (w.advance text).writer.unsent = [] := by
    generalize ho : w.advance text = outcome at hok ⊢
    cases ho ▸ advances w text with
    | sent => rfl
    | lost | refused => cases hok
  cases call with
  | writeTrusted text =>
    have hcall : w.perform (.writeTrusted text) = w.advance text := writeTrusted_eq h.opened text
    rw [hcall] at hok ⊢
    exact ⟨h.advance hv hok, hsent hok⟩
  | writeValue value =>
    have hcall : w.perform (.writeValue value) = w.ready.advance (w.ready.escapeValue value) :=
      writeValue_eq h.opened value
    rw [hcall] at hok ⊢
    -- what comes before the value gives its pieces first
    rw [Writer.pieces, ← List.append_assoc]
    exact ⟨(h.ready hv).advance (hv.of_prepares (prepares hv)) hok, hsent hok⟩
  | setSoft soft =>
    rw [Writer.pieces, List.append_nil]
    exact ⟨⟨h.opened, h.charset, h.recorded, h.describes, h.paired⟩, hunsent⟩
  | flush =>
    have hcall : w.perform .flush = w.callSink .flush := flush_eq h.opened
    rw [Writer.pieces, List.append_nil, hcall]
    refine ⟨⟨h.opened, h.charset, ?_, h.describes, h.paired⟩, hunsent⟩
    -- a flush sends no bytes
    rw [sent_callSink, show SinkCall.flush.bytes = [] from rfl, List.append_nil]
    exact h.recorded
  | close => exact absurd rfl hopen

/-- **A run keeps a writer described.** -/
theorem Described.run (h : Described start pieces w) (hv : Valid w) (hunsent : w.unsent = [])
    {calls : List Call} (hopen : .close ∉ calls) (hok : (w.run calls).error = none) :
    Described start (pieces ++ w.runPieces calls) (w.run calls).writer
      ∧ (w.run calls).writer.unsent = [] := by
  induction calls generalizing w pieces with
  | nil =>
    rw [runPieces, List.append_nil]
    exact ⟨h, hunsent⟩
  | cons call calls ih =>
    rw [Writer.run] at hok ⊢
    obtain ⟨hfirst, hrest⟩ := Outcome.error_andThen.mp hok
    rw [List.mem_cons, not_or] at hopen
    obtain ⟨hnext, hnone⟩ := h.perform hv hunsent (Ne.symm hopen.1) hfirst
    rw [runPieces, ← List.append_assoc, Outcome.andThen_ok hfirst]
    exact ih hnext (hv.perform call) hnone hopen.2 hrest

/-- **A completed document describes its end**, where no quotes are open. -/
theorem Described.close (h : Described start pieces w) (hv : Valid w)
    (hok : w.close.error = none) :
    let out := (pieces ++ w.pieces .close).flatMap Piece.text
    w.close.writer.sent = start ++ Text.utf8Bytes out
      ∧ Paired false (pieces ++ w.pieces .close) false
      ∧ Context.advance {} true out = ⟨w.close.writer.decided, out, []⟩
      ∧ w.close.writer.decided.delim ≠ some .autoQuote := by
  intro out
  have hout : out = pieces.flatMap Piece.text ++ w.completion := by
    rw [← text_pieces_close, ← List.flatMap_append]
  rw [close_eq h.opened] at hok ⊢
  -- if the last call to the sink is made, the calls before it have not failed
  obtain ⟨hflushed, -⟩ := Outcome.error_andThen.mp hok
  obtain ⟨hsent, -⟩ := Outcome.error_andThen.mp hflushed
  rw [Outcome.andThen_ok hflushed, Outcome.andThen_ok hsent]
  refine ⟨?_, ?_, ?_, Context.delim_finish _⟩
  · have hsent' : w.completed.sendDecided.writer.sent
        = w.sent ++ Text.utf8Bytes w.completed.unsent := Output.sent_write_utf8 h.charset _
    rw [sent_callSink, sent_callSink, hsent', unsent_completed, hout, Text.utf8Bytes_append,
      Text.utf8Bytes_append, ← List.append_assoc, h.recorded]
    simp [SinkCall.bytes]
  · exact h.paired.append ((Context.paired_pieces _ _ _).append (Context.paired_finishPieces _))
  · have hcompletion : w.completion = w.held.text ++ w.context.finish.2 := by
      rw [completion, Context.advance_held hv.held, context]
    rw [hout, hcompletion]
    exact h.describes.finish hv.held

/-- **The output describes itself.** Who reads what the sink has got, and what is held back after
it, holds back the same, and takes a value there for the same as the writer, except that added
quotes look like all others. In a completed document all added quotes come in pairs, so that it does
not end in a value around which quotes have been added. -/
theorem output_describes_itself (settings : Settings) (sink : Sink) (serializer : Serializer)
    (hutf8 : settings.charset = .utf8) (calls : List Call) (hopen : .close ∉ calls)
    (hok : ((new settings sink serializer).run calls).error = none) :
    let w := ((new settings sink serializer).run calls).writer
    (∃ out : Text, w.sent = sink.sent ++ Text.utf8Bytes out
      ∧ (Context.advance {} false (out ++ w.held.text)).held = w.held.text
      ∧ (Context.advance {} false (out ++ w.held.text)).context.peek w.held.text
          = w.context.asRead)
      ∧ (w.close.error = none →
          let pieces := (new settings sink serializer).runPieces (calls ++ [.close])
          let out := pieces.flatMap Piece.text
          w.close.writer.sent = sink.sent ++ Text.utf8Bytes out
            ∧ Paired false pieces false
            ∧ (Context.advance {} true out).context = w.close.writer.decided
            ∧ w.close.writer.decided.delim ≠ some .autoQuote) := by
  intro w
  have hnew : Described sink.sent [] (new settings sink serializer) :=
    ⟨rfl, hutf8, rfl, rfl, .nil false⟩
  have hvalid : Valid w := ((Reachable.new settings sink serializer).run calls).valid
  obtain ⟨hrun, hunsent⟩ := hnew.run (Reachable.new settings sink serializer).valid rfl hopen hok
  rw [List.nil_append] at hrun
  refine ⟨⟨((new settings sink serializer).runPieces calls).flatMap Piece.text, ?_, ?_, ?_⟩,
    fun hclosed => ?_⟩
  · have hrecorded := hrun.recorded
    rw [hunsent] at hrecorded
    exact (List.append_nil _).symm.trans hrecorded
  · rw [hrun.describes]
  · rw [hrun.describes]
    exact Context.peek_asRead hvalid.held
  · obtain ⟨hsent, hpaired, hread, hdelim⟩ := hrun.close hvalid hclosed
    -- closing adds the last pieces
    have hpieces : (new settings sink serializer).runPieces (calls ++ [.close])
        = (new settings sink serializer).runPieces calls ++ w.pieces .close := by
      rw [runPieces_append hok, runPieces, runPieces, List.append_nil]
    rw [hpieces]
    exact ⟨hsent, hpaired, by rw [hread], hdelim⟩

/-- A value that is put in quotes, with a reference in it that another value follows, and with one
that is still open at the end. -/
theorem quoted_title_describes_itself :
    let calls : List Call := [.writeTrusted "<a title=".toList, .writeValue (.str "a b".toList),
      .writeTrusted "&lt".toList, .writeValue (.str "\"".toList), .writeTrusted "\"&am".toList]
    let w := ((new {} { failure? := fun _ _ => none }).run calls).writer
    (∃ out : Text, w.sent = Text.utf8Bytes out
      ∧ (Context.advance {} false (out ++ w.held.text)).held = w.held.text)
      ∧ Paired false ((new {} { failure? := fun _ _ => none }).runPieces (calls ++ [.close])) false
      ∧ w.close.writer.decided.delim ≠ some .autoQuote := by
  intro calls w
  have hrun := output_describes_itself {} { failure? := fun _ _ => none } .default rfl calls
    (by simp [calls]) (by decide +kernel)
  obtain ⟨⟨out, hsent, hheld, -⟩, hclose⟩ := hrun
  obtain ⟨-, hpaired, -, hdelim⟩ := hclose (by decide +kernel)
  exact ⟨⟨out, hsent, hheld⟩, hpaired, hdelim⟩

end Writer

end SafeMarkup
