import SafeMarkup.Proofs.SinkFailures

/-!
# Closed writers

Closing a writer ends all that it does to its sink. Of a closed writer nothing changes any more but
whether it is soft, which does not matter then (`perform_eq_setSoft`). If the sink has taken the
last calls, it has got all text by then that has ever been written: a log of the text that each call
adds is, as UTF-8, what has been sent and what is unsent (`Logged.perform`).
-/

namespace SafeMarkup

namespace Writer

variable {w : Writer} {call : Call} {calls : List Call} {operation : Operation}
  {operations : List Operation} {start : List UInt8} {log text : Text}

/-! ### The calls of a run -/

/-- The calls that are made of a list of calls, up to the first that fails. -/
def callsMade (w : Writer) : List Call → List Call
  | [] => []
  | call :: calls =>
    match (w.perform call).error with
    | some _ => [call]
    | none => call :: (w.perform call).writer.callsMade calls

/-- All calls that a writer makes in the course of operations. -/
def callsOf (w : Writer) : List Operation → List Call
  | [] => []
  | operation :: operations =>
    w.callsMade operation.calls ++ (w.operate operation).writer.callsOf operations

theorem performAll_append (w : Writer) (a b : List Call) :
    w.performAll (a ++ b) = (w.performAll a).performAll b := List.foldl_append

/-- A run that stops at an error is the run of the calls it makes. -/
theorem writer_run (w : Writer) (calls : List Call) :
    (w.run calls).writer = w.performAll (w.callsMade calls) := by
  induction calls generalizing w with
  | nil => rfl
  | cons call calls ih =>
    rw [run, callsMade, Outcome.andThen]
    cases (w.perform call).error with
    | some e => rfl
    | none => exact ih _

/-- Operations are calls, each of them up to its first error. -/
theorem operateAll_eq (w : Writer) (operations : List Operation) :
    w.operateAll operations = w.performAll (w.callsOf operations) := by
  induction operations generalizing w with
  | nil => rfl
  | cons operation operations ih =>
    rw [callsOf, performAll_append, ← writer_run, ← operate_eq_run]
    exact ih _

/-! ### After a writer has been closed -/

/-- The writer has been closed, and no text is left in it. -/
structure Closed (w : Writer) : Prop where
  closed : w.closed = true
  held : w.held.text = []
  unsent : w.unsent = []

/-- Closing decides what has been held back, and what has been decided is gone then. -/
theorem closed_of_close (hopen : w.closed = false) : Closed w.close.writer := by
  have hkept (call : SinkCall) (v : Writer) (hv : Closed v) : Closed (v.callSink call).writer :=
    ⟨hv.closed, hv.held, hv.unsent⟩
  refine close_keeps (fun hclosed => ?_) (fun _ => ⟨rfl, rfl, rfl⟩) (hkept .flush) (hkept .close)
  cases hopen.symm.trans hclosed

/-- **A closed writer changes no more**, except that it may become soft. -/
theorem perform_eq_setSoft (h : w.closed = true) (call : Call) :
    ∃ soft, (w.perform call).writer = w.setSoft soft := by
  cases call with
  | setSoft soft => exact ⟨soft, rfl⟩
  | _ =>
    refine ⟨w.soft, ?_⟩
    change _ = w
    simp [perform, writeTrusted, writeValue, flush, close, h]

/-- After the writer has been closed, only the mode of escaping still changes. -/
theorem performAll_eq_setSoft (h : w.closed = true) (calls : List Call) :
    ∃ soft, w.performAll calls = w.setSoft soft := by
  induction calls generalizing w with
  | nil => exact ⟨w.soft, rfl⟩
  | cons call calls ih =>
    obtain ⟨soft, hcall⟩ := perform_eq_setSoft h call
    obtain ⟨soft', hcalls⟩ := ih (w := w.setSoft soft) h
    refine ⟨soft', ?_⟩
    change (w.perform call).writer.performAll calls = _
    rw [hcall, hcalls]
    rfl

/-- In a run the writer is open, or no text is left. -/
theorem closed_of_perform (h : w.closed = true → Closed w)
    (hclosed : (w.perform call).writer.closed = true) : Closed (w.perform call).writer := by
  -- it was closed before, or this call has closed it
  cases hopen : w.closed with
  | true =>
    obtain ⟨soft, heq⟩ := perform_eq_setSoft hopen call
    rw [heq]
    exact ⟨hopen, (h hopen).held, (h hopen).unsent⟩
  | false =>
    cases call with
    | close => exact closed_of_close hopen
    | _ =>
      rw [closed_perform rfl, hopen] at hclosed
      cases hclosed

/-- A run that closes the writer leaves it as a closed writer is to be. -/
theorem closed_of_performAll (h : w.closed = true → Closed w)
    (hclosed : (w.performAll calls).closed = true) : Closed (w.performAll calls) := by
  induction calls generalizing w with
  | nil => exact h hclosed
  | cons call calls ih => exact ih (closed_of_perform h) hclosed

/-- After any run, closing leaves no text. -/
theorem closed_of_close_run (settings : Settings) (sink : Sink) (serializer : Serializer)
    (calls : List Call) :
    Closed ((new settings sink serializer).performAll calls).close.writer := by
  have hnew : (new settings sink serializer).closed = true →
      Closed (new settings sink serializer) := fun h => by cases h
  have hclosed := closed_close ((new settings sink serializer).performAll calls)
  change Closed (((new settings sink serializer).performAll calls).performAll [.close])
  rw [← performAll_append]
  exact closed_of_performAll hnew (performAll_append _ _ _ ▸ hclosed)

/-- Does the operation need an open writer? -/
def Operation.needsOpen : Operation → Bool
  | .setSoft _ | .close => false
  | _ => true

/-- What needs an open writer is refused by a closed one. -/
theorem operate_of_closed (h : w.closed = true) (hneeds : operation.needsOpen = true) :
    w.operate operation = { writer := w, error := some .closed } := by
  have htrusted (text : Text) :
      w.writeTrusted text = { writer := w, error := some .closed } := if_pos h
  have hvalue (value : Value) : w.writeValue value = { writer := w, error := some .closed } :=
    if_pos h
  -- the operations differ in what they write, and none comes to it
  cases operation with
  | writeTrusted text => exact htrusted text
  | writeValue value | print value => exact hvalue value
  | writeValueLine value => rw [operate, writeValueLine, hvalue]
  | newLine => exact htrusted ['\n']
  | writeChar c => exact htrusted [c]
  | writeFormatted text => exact hvalue (.str text)
  | flush => exact if_pos h
  | setSoft | close => cases hneeds

/-! ### The log of what is written -/

/-- What is written for a text, which is nothing if there is no memory for it after other text that
has been held back. -/
def writtenFor (w : Writer) (text : Text) : Text :=
  if w.held.isEmpty then (w.decided.advance false text).written
  else if (w.held.append text).2.isNone then
    (w.decided.advance false (w.held.text ++ text)).written
  else []

/-- What completes a reference before a value. -/
def completedReference (w : Writer) : Text :=
  if w.decided.inAttrValue && !w.held.isEmpty then (w.decided.terminateCharRef w.held.text).2
  else []

/-- What comes before a value that has to be put in quotes. -/
def openedQuotes (w : Writer) : Text :=
  if w.context.state = .beforeValue then
    (w.decided.advance true w.held.text).written
      ++ (w.decided.advance true w.held.text).context.beginValue.2
  else []

/-- The text that a call adds to what is to be sent. -/
def written (w : Writer) : Call → Text
  | .writeTrusted text => if w.closed then [] else w.writtenFor text
  | .writeValue value =>
    if w.closed then []
    else w.completedReference ++ w.terminateCharRef.openedQuotes
      ++ w.ready.writtenFor (w.ready.escapeValue value)
  | .close => if w.closed then [] else w.completion
  | .setSoft _ | .flush => []

/-- The text that all calls add, whether they fail or not. -/
def writtenIn (w : Writer) : List Call → Text
  | [] => []
  | call :: calls => w.written call ++ (w.perform call).writer.writtenIn calls

/-- Before a value a held back reference is completed, and quotes are opened. -/
theorem unsent_ready_eq (w : Writer) :
    w.ready.unsent = w.unsent ++ (w.completedReference ++ w.terminateCharRef.openedQuotes) := by
  have hreference : w.terminateCharRef.unsent = w.unsent ++ w.completedReference := by
    unfold terminateCharRef completedReference
    split
    · rfl
    · exact (List.append_nil _).symm
  -- the quotes are opened after the reference has been completed
  have hquotes (v : Writer) : v.beginValue.unsent = v.unsent ++ v.openedQuotes := by
    unfold beginValue openedQuotes
    split
    · exact List.append_assoc _ _ _
    · exact (List.append_nil _).symm
  rw [ready, hquotes, hreference, List.append_assoc]

/-- `log` is what has been written since the sink had got `start`: it has been sent, or is to be
sent. -/
structure Logged (start : List UInt8) (log : Text) (w : Writer) : Prop where
  charset : w.output.charset = .utf8
  recorded : w.sent ++ Text.utf8Bytes w.unsent = start ++ Text.utf8Bytes log

/-- Text that is added to what is to be sent is added to the log. -/
theorem Logged.append (h : Logged start log w) (next : Writer) (houtput : next.output = w.output)
    {more : Text} (hunsent : next.unsent = w.unsent ++ more) : Logged start (log ++ more) next where
  charset := houtput ▸ h.charset
  recorded := by
    rw [sent, houtput, hunsent, Text.utf8Bytes_append, Text.utf8Bytes_append, ← List.append_assoc,
      ← List.append_assoc, ← h.recorded]
    rfl

/-- What is sent is gone, whether the sink takes it or not. -/
theorem Logged.sendDecided (h : Logged start log w) : Logged start log w.sendDecided.writer where
  charset := (Output.charset_write _ _).trans h.charset
  recorded := by
    change (w.output.write w.unsent).1.sink.sent ++ Text.utf8Bytes [] = _
    rw [Output.sent_write_utf8 h.charset, ← h.recorded]
    exact List.append_nil _

/-- A call without bytes changes nothing of the log. -/
theorem Logged.callSink (h : Logged start log w) {call : SinkCall} (hcall : call.bytes = []) :
    Logged start log (w.callSink call).writer where
  charset := h.charset
  recorded := by
    rw [sent_callSink, hcall, List.append_nil]
    exact h.recorded

/-- What following a text writes is logged, sent or not. -/
theorem Logged.advance (h : Logged start log w) (text : Text) :
    Logged start (log ++ w.writtenFor text) (w.advance text).writer := by
  -- a refused text leaves what it has decided, another one is sent at once
  rcases advance_of_append w text with ⟨e, he, hrefused⟩ | ⟨hok, hsent⟩
  · have hunsent : (w.afterRefusal text).unsent = w.unsent ++ w.writtenFor text := by
      unfold afterRefusal writtenFor
      unfold asked at he
      split
      · rfl
      · next hheld =>
        rw [if_neg hheld] at he
        rw [he, if_neg (by simp)]
        exact (List.append_nil _).symm
    have houtput : (w.afterRefusal text).output = w.output := by
      unfold afterRefusal
      split <;> rfl
    rw [hrefused]
    refine h.append _ ?_ ?_
    · exact houtput
    · exact hunsent
  · have hwritten : w.writtenFor text
        = (w.decided.advance false (w.held.text ++ text)).written := by
      unfold writtenFor
      unfold asked at hok
      split
      · next hempty => rw [List.isEmpty_iff.mp hempty, List.nil_append]
      · next hheld =>
        rw [if_neg hheld] at hok
        rw [hok]
        rfl
    rw [hsent, hwritten]
    generalize w.decided.advance false (w.held.text ++ text) = p
    have hrecorded := h.append (w.record p.context p.written) rfl rfl
    exact Logged.sendDecided ⟨hrecorded.charset, hrecorded.recorded⟩

/-- **The log of a call.** -/
theorem Logged.perform (h : Logged start log w) (call : Call) :
    Logged start (log ++ w.written call) (w.perform call).writer := by
  have hnone : Logged start (log ++ []) w := by rwa [List.append_nil]
  cases call with
  | writeTrusted text =>
    rw [written, Writer.perform, writeTrusted]
    split
    · exact hnone
    · exact h.advance text
  | writeValue value =>
    rw [written, Writer.perform, writeValue]
    split
    · exact hnone
    · -- first what comes before the value, then the value
      have hready := h.append w.ready w.output_ready w.unsent_ready_eq
      rw [← List.append_assoc]
      exact hready.advance _
  | setSoft soft => exact ⟨hnone.charset, hnone.recorded⟩
  | flush =>
    rw [written, Writer.perform, flush]
    split
    · exact hnone
    · exact hnone.callSink rfl
  | close =>
    have hcompleted : Logged start (log ++ w.completion) w.completed :=
      h.append w.completed rfl w.unsent_completed
    rw [written, Writer.perform]
    -- the flush and the closing of the sink carry no bytes
    refine close_keeps (fun hclosed => ?_) (fun hopen => ?_) (fun _ hv => hv.callSink rfl)
      (fun _ hv => hv.callSink rfl)
    · rw [if_pos hclosed]
      exact hnone
    · rw [if_neg (by simp [hopen])]
      exact hcompleted.sendDecided

/-- **The log of a run.** -/
theorem Logged.performAll (h : Logged start log w) (calls : List Call) :
    Logged start (log ++ w.writtenIn calls) (w.performAll calls) := by
  induction calls generalizing w log with
  | nil =>
    rw [writtenIn, List.append_nil]
    exact h
  | cons call calls ih =>
    rw [writtenIn, ← List.append_assoc]
    exact ih (h.perform call)

/-! ### The last calls -/

/-- As UTF-8 a text is sent in one call. -/
theorem makes_sendDecided_utf8 (hutf8 : w.output.charset = .utf8) :
    w.sendDecided.Makes w.output.sink (SinkCall.writes [Text.utf8Bytes w.unsent]) := by
  refine ⟨(w.output.write w.unsent).2, ?_, rfl⟩
  change _ = ((w.output.write w.unsent).1.sink, (w.output.write w.unsent).2)
  rw [Output.sendAll_write hutf8]

/-- **What closing asks of the sink**, if the sink takes all of it. -/
theorem calls_close (hutf8 : w.output.charset = .utf8) (hopen : w.closed = false)
    (hok : ∀ reason, w.close.error ≠ some (.sink reason)) :
    w.close.writer.output.sink.calls
      = .close :: .flush
        :: (SinkCall.writes [Text.utf8Bytes (w.unsent ++ w.completion)]
          ++ w.output.sink.calls) := by
  have hmakes : w.close.Makes w.output.sink
      (SinkCall.writes [Text.utf8Bytes (w.unsent ++ w.completion)] ++ [.flush] ++ [.close]) := by
    have hsends := makes_sendDecided_utf8 (w := w.completed) hutf8
    rw [unsent_completed] at hsends
    rw [close_eq hopen]
    exact (hsends.andThen .flush).andThen .close
  obtain ⟨failed, hsend, herror⟩ := hmakes
  have hnone : failed = none := by
    cases failed with
    | none => rfl
    | some reason => exact absurd herror (hok reason)
  have hcalls := Sink.calls_sendAll (hnone ▸ congrArg Prod.snd hsend)
  rw [hsend] at hcalls
  rw [hcalls, List.reverse_append, List.reverse_append]
  generalize Text.utf8Bytes (w.unsent ++ w.completion) = bytes
  cases bytes <;> rfl

/-- **A closed writer is inert.** A writer does any operations, which may fail, and is closed. That
may fail too. Whatever it is asked to do after that, and also when it is given up then, it makes no
call to its sink, holds nothing back and keeps its context. It refuses to write and to flush because
it has been closed, and has no effect if it is closed again. If the output is UTF-8, and the sink
takes the last calls of a writer that has been open, these are one write at most, a flush and the
closing of the sink. By then the sink has got all text that the calls have ever added. The end of it
is what has been held back, and the closing quote of a value that has been put in quotes. -/
theorem closed_writer_is_inert (settings : Settings) (sink : Sink) (serializer : Serializer)
    (before : List Operation) :
    let start := new settings sink serializer
    let w := start.operateAll before
    let closed := w.close.writer
    (∀ after : List Operation,
      let later := closed.operateAll after
      later.output = closed.output ∧ later.abandon.output = closed.output
        ∧ later.closed = true ∧ later.held.text = [] ∧ later.context = closed.context
        ∧ later.close = { writer := later }
        ∧ ∀ operation, operation.needsOpen = true →
          later.operate operation = { writer := later, error := some .closed })
    ∧ (settings.charset = .utf8 → w.closed = false →
      (∀ reason, w.close.error ≠ some (.sink reason)) →
        closed.output.sink.calls
            = .close :: .flush
              :: (SinkCall.writes [Text.utf8Bytes (w.unsent ++ w.completion)]
                ++ w.output.sink.calls)
          ∧ closed.sent
            = sink.sent
              ++ Text.utf8Bytes (start.writtenIn (start.callsOf before) ++ w.completion)
          ∧ w.completion = (w.decided.advance true w.held.text).written
            ++ if w.context.delim = some .autoQuote then ['"'] else []) := by
  intro start w closed
  have hrun : w = start.performAll (start.callsOf before) := start.operateAll_eq before
  have hclosed : Closed closed := by
    change Closed w.close.writer
    rw [hrun]
    exact closed_of_close_run settings sink serializer _
  have hlogged (hutf8 : settings.charset = .utf8) :
      Logged sink.sent (start.writtenIn (start.callsOf before)) w := by
    have hnew : Logged sink.sent [] start := ⟨hutf8, rfl⟩
    rw [hrun]
    exact hnew.performAll _
  refine ⟨fun after => ?_, fun hutf8 hopen hok => ⟨?_, ?_, ?_⟩⟩
  · intro later
    -- nothing but the mode of escaping tells the later writer from the closed one
    obtain ⟨soft, hlater⟩ := performAll_eq_setSoft hclosed.closed (closed.callsOf after)
    rw [← operateAll_eq] at hlater
    have hagain : later.closed = true := by
      change (closed.operateAll after).closed = true
      rw [hlater]
      exact hclosed.closed
    have hclose : later.close = { writer := later } := if_pos hagain
    have houtput : later.output = closed.output := by
      change (closed.operateAll after).output = _
      rw [hlater]
      rfl
    refine ⟨houtput, ?_, hagain, ?_, ?_, hclose,
      fun operation hneeds => operate_of_closed hagain hneeds⟩
    · rw [abandon, hclose]
      exact houtput
    · change (closed.operateAll after).held.text = []
      rw [hlater]
      exact hclosed.held
    · change (closed.operateAll after).context = _
      rw [hlater]
      rfl
  · exact calls_close (hlogged hutf8).charset hopen hok
  · -- the last entry of the log is what closing completes
    have hlast := ((hlogged hutf8).perform .close).recorded
    have hwritten : w.written .close = w.completion := if_neg (by simp [hopen])
    change closed.sent ++ Text.utf8Bytes closed.unsent = _ at hlast
    rwa [hwritten, hclosed.unsent, show Text.utf8Bytes [] = [] from rfl, List.append_nil] at hlast
  · rw [completion, Context.finish]
    change _ ++ (if w.context.delim = some .autoQuote then _ else _ : Context × Text).2 = _
    split <;> rfl

/-- The start of a reference in a value that has been put in quotes is written when the document is
closed, and so is the closing quote. -/
theorem open_value_is_completed :
    let before := [Operation.writeTrusted "<a title=".toList, .print .null,
      .writeTrusted "&am".toList]
    let start := new {} { failure? := fun _ _ => none }
    let w := start.operateAll before
    w.closed = false ∧ w.close.error = none
      ∧ w.held.text = "&am".toList ∧ w.completion = "&am\"".toList
      ∧ w.close.writer.sent
        = Text.utf8Bytes (start.writtenIn (start.callsOf before) ++ "&am\"".toList)
      ∧ (w.close.writer.operate .newLine).error = some .closed := by
  intro before start w
  subst w start
  obtain ⟨hopen, hok, hheld, hcompletion⟩ :
      ((new {} { failure? := fun _ _ => none }).operateAll before).closed = false
        ∧ ((new {} { failure? := fun _ _ => none }).operateAll before).close.error = none
        ∧ ((new {} { failure? := fun _ _ => none }).operateAll before).held.text = "&am".toList
        ∧ ((new {} { failure? := fun _ _ => none }).operateAll before).completion
          = "&am\"".toList := by
    decide +kernel
  obtain ⟨hinert, hlast⟩ :=
    closed_writer_is_inert {} { failure? := fun _ _ => none } .default before
  obtain ⟨-, hsent, -⟩ := hlast rfl hopen fun reason => by rw [hok]; simp
  rw [hcompletion] at hsent
  have hrefused := (hinert []).2.2.2.2.2.2 .newLine rfl
  exact ⟨hopen, hok, hheld, hcompletion, hsent, congrArg Outcome.error hrefused⟩

end Writer

end SafeMarkup
