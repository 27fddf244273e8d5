import SafeMarkup.Proofs.Closing

/-!
# Failures of the sink

As UTF-8 a text goes to the sink in one call, and it is gone whether that call fails or not. So
nothing of a writer depends on which calls have failed before: another writer, whose sink fails at
other calls, does the same and asks its sink for the same (`sink_failures_leave_no_trace`). What
makes up two calls, the second only if the first succeeds, is left out here, and so is closing.
-/

namespace SafeMarkup

/-- Says which calls to a sink fail, given all calls before them. -/
abbrev Failures := List SinkCall → SinkCall → Option Text

namespace Output

variable {output : Output}

/-- The same with a sink that fails at other calls. -/
def withFailures (output : Output) (failure? : Failures) : Output :=
  { output with sink := { output.sink with failure? } }

/-- The call in which a text is sent has been made, if there is one. -/
theorem calls_write (h : output.charset = .utf8) (t : Text) :
    (output.write t).1.sink.calls
      = SinkCall.writes [Text.utf8Bytes t] ++ output.sink.calls := by
  -- the calls are those of sending all of the text in one block
  have hsend : (output.write t).1.sink.calls
      = (output.sink.sendAll (SinkCall.writes [Text.utf8Bytes t])).1.calls := by
    rw [sendAll_write h]
  rw [hsend]
  cases Text.utf8Bytes t with
  | nil => rfl
  | cons byte bytes =>
    change (output.sink.sendAll [.write (byte :: bytes)]).1.calls = _
    rw [Sink.sendAll_singleton]
    rfl

/-- Whether that call fails does not matter. -/
theorem write_withFailures (h : output.charset = .utf8) (failure? : Failures) (t : Text) :
    ((output.withFailures failure?).write t).1 = (output.write t).1.withFailures failure? := by
  have h' : (output.withFailures failure?).charset = .utf8 := h
  rw [write, write, h, h']
  split <;> rfl

end Output

namespace Writer

variable {w : Writer} {failure? : Failures} {call : Call} {operation : Operation}
  {operations : List Operation}

/-! ### Sinks that fail at other calls -/

/-- The same writer in front of a sink that fails at other calls. -/
def withFailures (w : Writer) (failure? : Failures) : Writer :=
  { w with output := w.output.withFailures failure? }

/-- New writers with the same settings are the same but for their sinks. -/
theorem new_withFailures (settings : Settings) (sink : Sink) (serializer : Serializer)
    (failure? : Failures) :
    (new settings sink serializer).withFailures failure?
      = new settings { sink with failure? } serializer := rfl

/-- The outcome of a call, and the outcome of the same call with other failures of the sink. -/
structure Outcome.Matches (failure? : Failures) (o o' : Outcome) : Prop where
  writer : o'.writer = o.writer.withFailures failure?
  refused : ∀ e, o'.error = some (.heldTextLimit e) ↔ o.error = some (.heldTextLimit e)

/-- In UTF-8 the same block goes out in both runs, and it is recorded whether it fails or not. -/
theorem matches_sendDecided (hutf8 : w.output.charset = .utf8) (failure? : Failures) :
    w.sendDecided.Matches failure? (w.withFailures failure?).sendDecided := by
  refine ⟨?_, fun e => iff_of_false (error_sendDecided_ne _ e) (error_sendDecided_ne _ e)⟩
  have hwrite := Output.write_withFailures hutf8 failure? w.unsent
  exact congrArg (fun output => { w with output, unsent := [] }) hwrite

theorem afterRefusal_withFailures (w : Writer) (failure? : Failures) (text : Text) :
    (w.withFailures failure?).afterRefusal text
      = (w.afterRefusal text).withFailures failure? := by
  unfold afterRefusal
  change (if w.held.isEmpty = true then _ else _) = _
  split <;> rfl

/-- Memory is given or refused before anything is sent. -/
theorem matches_advance (hutf8 : w.output.charset = .utf8) (failure? : Failures) (text : Text) :
    (w.advance text).Matches failure? ((w.withFailures failure?).advance text) := by
  -- the request is the same in both runs, and so is its answer
  rcases advance_of_append w text with ⟨e, he, hrefused⟩ | ⟨hok, hsent⟩ <;>
    rcases advance_of_append (w.withFailures failure?) text with
      ⟨e', he', hrefused'⟩ | ⟨hok', hsent'⟩
  · rw [hrefused, hrefused']
    obtain rfl : e' = e := Option.some.inj (he'.symm.trans he)
    rw [afterRefusal_withFailures]
    exact ⟨rfl, fun _ => Iff.rfl⟩
  · cases he.symm.trans hok'
  · cases he'.symm.trans hok
  · rw [hsent, hsent']
    refine matches_sendDecided ?_ failure?
    exact hutf8

theorem ready_withFailures (w : Writer) (failure? : Failures) :
    (w.withFailures failure?).ready = w.ready.withFailures failure? := by
  have hreference :
      (w.withFailures failure?).terminateCharRef = w.terminateCharRef.withFailures failure? := by
    unfold terminateCharRef
    change (if (w.decided.inAttrValue && !w.held.isEmpty) = true then _ else _) = _
    split <;> rfl
  rw [ready, ready, hreference]
  generalize w.terminateCharRef = w
  unfold beginValue
  change (if w.context.state = .beforeValue then _ else _) = _
  split <;> rfl

/-- Only what has been decided and what is held back changes before a value is escaped. -/
theorem ready_fields (w : Writer) :
    ∃ decided held unsent, w.ready = { w with decided, held, unsent } := by
  have hreference : ∃ decided held unsent,
      w.terminateCharRef = { w with decided, held, unsent } := by
    unfold terminateCharRef
    split <;> exact ⟨_, _, _, rfl⟩
  obtain ⟨decided, held, unsent, hreference⟩ := hreference
  rw [ready, hreference]
  unfold beginValue
  split <;> exact ⟨_, _, _, rfl⟩

theorem output_ready (w : Writer) : w.ready.output = w.output := by
  obtain ⟨_, _, _, heq⟩ := w.ready_fields
  rw [heq]

theorem closed_ready (w : Writer) : w.ready.closed = w.closed := by
  obtain ⟨_, _, _, heq⟩ := w.ready_fields
  rw [heq]

/-- **What a call does** but for its answer does not depend on which calls to the sink fail. -/
theorem matches_perform (hutf8 : w.output.charset = .utf8) (hcall : call.isClose = false)
    (failure? : Failures) :
    (w.perform call).Matches failure? ((w.withFailures failure?).perform call) := by
  have hclosed : (w.withFailures failure?).closed = w.closed := rfl
  cases call with
  | writeTrusted text =>
    rw [perform, perform, writeTrusted, writeTrusted, hclosed]
    split
    · exact ⟨rfl, fun _ => Iff.rfl⟩
    · exact matches_advance hutf8 failure? text
  | writeValue value =>
    rw [perform, perform, writeValue, writeValue, hclosed]
    split
    · exact ⟨rfl, fun _ => Iff.rfl⟩
    · have hutf8' : w.ready.output.charset = .utf8 := (congrArg _ w.output_ready).trans hutf8
      -- what comes before the value does not depend on the sink
      have hready := matches_advance hutf8' failure? (w.ready.escapeValue value)
      change Outcome.Matches failure? (w.ready.advance (w.ready.escapeValue value))
        ((w.withFailures failure?).ready.advance
          ((w.withFailures failure?).ready.escapeValue value))
      rw [ready_withFailures]
      exact hready
  | setSoft soft => exact ⟨rfl, fun _ => Iff.rfl⟩
  | flush =>
    rw [perform, perform, flush, flush, hclosed]
    split
    · exact ⟨rfl, fun _ => Iff.rfl⟩
    · -- a flush asks for no memory
      have hfailed (v : Writer) (e : LimitExceeded) :
          (v.callSink .flush).error ≠ some (.heldTextLimit e) := by
        intro h
        obtain ⟨_, -, he⟩ := Option.map_eq_some_iff.mp h
        cases he
      exact ⟨rfl, fun e => iff_of_false (hfailed _ e) (hfailed _ e)⟩
  | close => cases hcall

/-! ### What is asked of the sink -/

/-- What a call may ask of the sink: to take a text, unless there is none, or to flush. -/
def Call.Asks : Call → List SinkCall → Prop
  | .writeTrusted _, made | .writeValue _, made =>
    made = [] ∨ ∃ bytes, bytes ≠ [] ∧ made = [.write bytes]
  | .setSoft _, made => made = []
  | .flush, made => made = [.flush]
  | .close, _ => False

/-- What an operation may ask of the sink that is a single call. -/
def Operation.Asks (operation : Operation) (made : List SinkCall) : Prop :=
  ∀ call ∈ operation.calls, call.Asks made

/-- Is the operation a single call that leaves the writer open? -/
def Operation.isSimple (operation : Operation) : Bool :=
  match operation.calls with
  | [call] => !call.isClose
  | _ => false

theorem Operation.exists_call (h : operation.isSimple = true) :
    ∃ call : Call, operation.calls = [call] ∧ call.isClose = false
      ∧ ∀ w : Writer, w.operate operation = w.perform call := by
  rw [isSimple] at h
  split at h
  · next call hcalls =>
    refine ⟨call, hcalls, by simpa using h, fun w => ?_⟩
    rw [operate_eq_run, hcalls, run_singleton]
  · cases h

/-- The encoding stays, and a text is sent in one call. -/
theorem asks_advance (hutf8 : w.output.charset = .utf8) (text : Text) :
    (w.advance text).writer.output.charset = .utf8
      ∧ ∃ made, (w.advance text).writer.output.sink.calls = made ++ w.output.sink.calls
        ∧ (made = [] ∨ ∃ bytes, bytes ≠ [] ∧ made = [.write bytes]) := by
  generalize ho : w.advance text = outcome
  cases ho ▸ advances w text with
  | sent p =>
    refine ⟨(Output.charset_write _ _).trans hutf8, _, Output.calls_write hutf8 _, ?_⟩
    rw [SinkCall.writes, List.flatMap_singleton]
    generalize Text.utf8Bytes (w.record p.context p.written).unsent = bytes
    by_cases hnone : bytes.isEmpty = true
    · exact .inl (if_pos hnone)
    · exact .inr ⟨bytes, by simpa using hnone, if_neg hnone⟩
  | lost | refused => exact ⟨hutf8, [], rfl, .inl rfl⟩

/-- **What a call asks of the sink.** -/
theorem asks_perform (hutf8 : w.output.charset = .utf8) (hopen : w.closed = false)
    (hcall : call.isClose = false) :
    (w.perform call).writer.output.charset = .utf8
      ∧ ∃ made, (w.perform call).writer.output.sink.calls = made ++ w.output.sink.calls
        ∧ call.Asks made := by
  cases call with
  | writeTrusted text =>
    rw [perform, writeTrusted_eq hopen]
    exact asks_advance hutf8 text
  | writeValue value =>
    rw [perform, writeValue_eq hopen, ← w.output_ready]
    exact asks_advance ((congrArg _ w.output_ready).trans hutf8) _
  | setSoft soft => exact ⟨hutf8, [], rfl, rfl⟩
  | flush =>
    rw [perform, flush_eq hopen]
    exact ⟨hutf8, [.flush], rfl, rfl⟩
  | close => cases hcall

theorem closed_perform (hcall : call.isClose = false) :
    (w.perform call).writer.closed = w.closed := by
  -- only closing closes
  cases call with
  | writeTrusted text =>
    rw [perform, writeTrusted]
    split
    · rfl
    · exact closed_advance w text
  | writeValue value =>
    rw [perform, writeValue]
    split
    · rfl
    · exact (closed_advance w.ready _).trans w.closed_ready
  | setSoft soft => rfl
  | flush =>
    rw [perform, flush]
    split <;> rfl
  | close => cases hcall

/-! ### Runs -/

/-- **Runs that differ in the failures of the sink only.** -/
theorem operateAll_withFailures (hutf8 : w.output.charset = .utf8) (hopen : w.closed = false)
    (hsimple : ∀ operation ∈ operations, operation.isSimple = true) (failure? : Failures) :
    (w.withFailures failure?).operateAll operations
        = (w.operateAll operations).withFailures failure?
      ∧ (w.operateAll operations).output.charset = .utf8
      ∧ (w.operateAll operations).closed = false := by
  induction operations generalizing w with
  | nil => exact ⟨rfl, hutf8, hopen⟩
  | cons operation operations ih =>
    obtain ⟨hfirst, hsimple⟩ := List.forall_mem_cons.mp hsimple
    obtain ⟨call, -, hcall, hoperate⟩ := Operation.exists_call hfirst
    -- the two writers are the same but for the failures after the first call
    have hmatches := matches_perform hutf8 hcall failure?
    have hopen' : (w.perform call).writer.closed = false := (closed_perform hcall).trans hopen
    change ((w.withFailures failure?).operate operation).writer.operateAll operations
        = ((w.operate operation).writer.operateAll operations).withFailures failure?
      ∧ ((w.operate operation).writer.operateAll operations).output.charset = .utf8
      ∧ ((w.operate operation).writer.operateAll operations).closed = false
    rw [hoperate, hoperate, hmatches.writer]
    exact ih (asks_perform hutf8 hopen hcall).1 hopen' hsimple

/-- **Failures of the sink leave no trace.** Two open writers are the same but for which calls their
sinks fail, such as two new ones with the same settings, and write UTF-8. They do the same
operations, each a single call that does not close the writer. After each of them the writers are
still the same but for that: they have the same context, hold back the same text, are equally soft
and open, and their sinks have got the same calls. What they do next is refused memory by both or by
none. It asks the sinks for the same, a write for one text at most. -/
theorem sink_failures_leave_no_trace (w : Writer) (hutf8 : w.output.charset = .utf8)
    (hopen : w.closed = false) (failure? : Failures) (operations : List Operation)
    (hsimple : ∀ operation ∈ operations, operation.isSimple = true) :
    let w' := w.operateAll operations
    let v' := (w.withFailures failure?).operateAll operations
    v' = w'.withFailures failure?
      ∧ v'.context = w'.context ∧ v'.held.text = w'.held.text
      ∧ v'.soft = w'.soft ∧ v'.closed = w'.closed ∧ w'.closed = false
      ∧ v'.output.sink.calls = w'.output.sink.calls
      ∧ ∀ operation, operation.isSimple = true →
        (∀ e, (v'.operate operation).error = some (.heldTextLimit e)
            ↔ (w'.operate operation).error = some (.heldTextLimit e))
          ∧ ∃ made, operation.Asks made
            ∧ (w'.operate operation).writer.output.sink.calls = made ++ w'.output.sink.calls
            ∧ (v'.operate operation).writer.output.sink.calls = made ++ w'.output.sink.calls := by
  intro w' v'
  obtain ⟨hsame, hutf8', hopen'⟩ := operateAll_withFailures hutf8 hopen hsimple failure?
  change v' = w'.withFailures failure? at hsame
  rw [hsame]
  refine ⟨rfl, rfl, rfl, rfl, rfl, hopen', rfl, fun operation hoperation => ?_⟩
  obtain ⟨call, hcalls, hcall, hoperate⟩ := Operation.exists_call hoperation
  have hmatches := matches_perform hutf8' hcall failure?
  obtain ⟨-, made, hmade, hasks⟩ := asks_perform hutf8' hopen' hcall
  rw [hoperate, hoperate]
  refine ⟨hmatches.refused, made, by simpa [Operation.Asks, hcalls] using hasks, hmade, ?_⟩
  rw [hmatches.writer]
  exact hmade

/-- A tag and a value are followed as far if no call to the sink ever succeeds. -/
theorem same_with_broken_sink :
    let broken : Failures := fun _ _ => some "no space left".toList
    let operations := [Operation.writeTrusted "<a ti".toList, .flush, .newLine, .print .null]
    let w := (new {} { failure? := fun _ _ => none }).operateAll operations
    let v := (new {} { failure? := broken }).operateAll operations
    (∀ operation ∈ operations, operation.isSimple = true)
      ∧ (w.operate .flush).error = none
      ∧ (v.operate .flush).error = some (.sink "no space left".toList)
      ∧ v.context = w.context ∧ v.output.sink.calls = w.output.sink.calls := by
  intro broken operations w v
  subst w v
  have hsimple : ∀ operation ∈ operations, operation.isSimple = true := by decide +kernel
  obtain ⟨-, hcontext, -, -, -, -, hcalls, -⟩ := sink_failures_leave_no_trace
    (new {} { failure? := fun _ _ => none }) rfl rfl broken operations hsimple
  rw [new_withFailures] at hcontext hcalls
  subst operations broken
  exact ⟨hsimple, by decide +kernel, by decide +kernel, hcontext, hcalls⟩

end Writer

end SafeMarkup
