import SafeMarkup.Proofs.Runs

/-!
# The end of the sink

The sink is closed by the first call that closes the writer, after the rest of the document has been
written and flushed. It is closed at most once, and nothing is sent to it after that. But if one of
these last writes fails, or the flush, the sink is never closed (`sink_closed_iff`).
-/

namespace SafeMarkup

namespace Sink

variable {sink : Sink} {calls : List SinkCall}

/-- Calls of other kinds do not close a sink. -/
theorem close_not_mem_sendAll (hcalls : .close ∉ calls) (h : .close ∉ sink.calls) :
    .close ∉ (sink.sendAll calls).1.calls := by
  -- on the calls: the first one that fails ends the sending
  induction calls generalizing sink with
  | nil => exact h
  | cons call calls ih =>
    obtain ⟨hcall, hcalls⟩ := not_or.mp (List.mem_cons.not.mp hcalls)
    have hnext : .close ∉ (sink.send call).1.calls := List.not_mem_cons_of_ne_of_not_mem hcall h
    rw [sendAll]
    generalize sink.send call = answer at hnext ⊢
    obtain ⟨next, _ | reason⟩ := answer
    · exact ih hcalls hnext
    · exact hnext

/-- **A sink that is to be closed last** is closed if and only if no call before has failed. -/
theorem count_close_sendAll (hcalls : .close ∉ calls) (h : .close ∉ sink.calls) :
    let last := (sink.sendAll (calls ++ [.close])).1
    (last.calls.count .close = 1 ↔ (sink.sendAll calls).2 = none)
      ∧ last.calls.count .close ≤ 1
      ∧ ∀ later earlier, last.calls = later ++ .close :: earlier → later = [] := by
  have hnext := close_not_mem_sendAll hcalls h
  rw [sendAll_append]
  generalize sink.sendAll calls = answer at hnext ⊢
  obtain ⟨next, failed⟩ := answer
  have hnone : next.calls.count .close = 0 := List.count_eq_zero.mpr hnext
  -- the closing call is made only after all the others have succeeded
  cases failed with
  | none =>
    dsimp only
    rw [sendAll_singleton, send]
    have hone : (SinkCall.close :: next.calls).count .close = 1 := by
      rw [List.count_cons_self, hnone]
    refine ⟨iff_of_true hone rfl, Nat.le_of_eq hone, fun later earlier heq => ?_⟩
    rcases List.cons_eq_append_iff.mp heq with ⟨rfl, -⟩ | ⟨later', -, htail⟩
    · rfl
    · exact absurd (htail ▸ List.mem_append_right later' List.mem_cons_self) hnext
  | some reason =>
    dsimp only
    refine ⟨iff_of_false (by omega) (by simp), by omega, fun later earlier heq => ?_⟩
    exact absurd (heq ▸ List.mem_append_right later List.mem_cons_self) hnext

end Sink

/-- Sending blocks does not close the sink. -/
theorem SinkCall.close_not_mem_writes (blocks : List (List UInt8)) :
    .close ∉ SinkCall.writes blocks := by
  intro hmem
  obtain ⟨bytes, -, hmem⟩ := List.mem_flatMap.mp hmem
  split at hmem <;> simp at hmem

/-- Writing text does not close the sink. -/
theorem Output.close_not_mem_write {output : Output} {bytesOf : Char → List UInt8}
    (hcharset : output.charset.Encodes bytesOf) (h : .close ∉ output.sink.calls) (t : Text) :
    .close ∉ (output.write t).1.sink.calls := by
  obtain ⟨blocks, -, hsend⟩ := output.sends_write hcharset t
  have hnext := Sink.close_not_mem_sendAll (SinkCall.close_not_mem_writes blocks) h
  rwa [hsend] at hnext

namespace Writer

variable {w : Writer} {calls : List Call} {bytesOf : Char → List UInt8}

/-! ### Runs that go on after errors -/

/-- Makes one call after the other, whether they fail or not. -/
def performAll (w : Writer) (calls : List Call) : Writer :=
  calls.foldl (fun w call => (w.perform call).writer) w

/-- Is the writer asked to close? -/
def Call.isClose : Call → Bool
  | .close => true
  | _ => false

/-! ### Before the writer is closed -/

/-- Neither the writer nor its sink has been closed. -/
structure Unclosed (bytesOf : Char → List UInt8) (w : Writer) : Prop where
  opened : w.closed = false
  valid : Valid w
  coded : w.output.charset.Encodes bytesOf
  calls : .close ∉ w.output.sink.calls

/-- Following a text leaves the sink open. -/
theorem Unclosed.of_advances {text : Text} {outcome : Outcome} (h : Unclosed bytesOf w)
    (ha : Advances w text outcome) : Unclosed bytesOf outcome.writer := by
  have hvalid := h.valid.of_advances ha
  cases ha with
  | sent =>
    exact ⟨h.opened, hvalid, (Output.charset_write _ _).symm ▸ h.coded,
      Output.close_not_mem_write h.coded h.calls _⟩
  | lost | refused => exact ⟨h.opened, hvalid, h.coded, h.calls⟩

theorem Unclosed.of_prepares {w' : Writer} (h : Unclosed bytesOf w) (hp : Prepares w w') :
    Unclosed bytesOf w' := by
  have hvalid := h.valid.of_prepares hp
  cases hp with
  | asIs | quoted | reference => exact ⟨h.opened, hvalid, h.coded, h.calls⟩

/-- **No call but `close` closes the writer or its sink**, whether it fails or not. -/
theorem Unclosed.perform (h : Unclosed bytesOf w) {call : Call} (hcall : call.isClose = false) :
    Unclosed bytesOf (w.perform call).writer := by
  have hvalid := h.valid.perform call
  cases call with
  | writeTrusted text =>
    rw [Writer.perform, writeTrusted_eq h.opened]
    exact h.of_advances (advances w text)
  | writeValue value =>
    rw [Writer.perform, writeValue_eq h.opened]
    exact (h.of_prepares (prepares h.valid)).of_advances (advances _ _)
  | setSoft soft => exact ⟨h.opened, hvalid, h.coded, h.calls⟩
  | flush =>
    rw [Writer.perform, flush_eq h.opened] at hvalid ⊢
    exact ⟨h.opened, hvalid, h.coded, List.not_mem_cons_of_ne_of_not_mem (by decide) h.calls⟩
  | close => cases hcall

theorem Unclosed.performAll (h : Unclosed bytesOf w)
    (hcalls : ∀ call ∈ calls, call.isClose = false) :
    Unclosed bytesOf (w.performAll calls) := by
  induction calls generalizing w with
  | nil => exact h
  | cons call calls ih =>
    obtain ⟨hcall, hcalls⟩ := List.forall_mem_cons.mp hcalls
    exact ih (h.perform hcall) hcalls

/-! ### After it has been closed -/

/-- A closed writer stays closed and makes no calls to its sink. -/
theorem perform_of_closed (h : w.closed = true) (call : Call) :
    (w.perform call).writer.output = w.output ∧ (w.perform call).writer.closed = true := by
  cases call <;> simp [perform, writeTrusted, writeValue, setSoft, flush, close, h]

/-- A closed writer makes no call to its sink. -/
theorem performAll_of_closed (h : w.closed = true) (calls : List Call) :
    (w.performAll calls).output = w.output ∧ (w.performAll calls).closed = true := by
  induction calls generalizing w with
  | nil => exact ⟨rfl, h⟩
  | cons call calls ih =>
    obtain ⟨houtput, hclosed⟩ := perform_of_closed h call
    obtain ⟨houtput', hclosed'⟩ := ih hclosed
    exact ⟨houtput'.trans houtput, hclosed'⟩

/-- **The first call that closes the writer is the last that matters for the sink.** -/
theorem output_abandon (w : Writer) (calls : List Call) :
    (w.performAll calls).abandon.output
      = (w.performAll (calls.takeWhile (!·.isClose))).close.writer.output := by
  -- on the calls, up to the first one that closes
  induction calls generalizing w with
  | nil => rfl
  | cons call calls ih =>
    cases hcall : call.isClose with
    | false =>
      rw [List.takeWhile_cons_of_pos (by simp [hcall])]
      exact ih _
    | true =>
      obtain rfl : call = .close := by cases call <;> first | rfl | cases hcall
      rw [List.takeWhile_cons_of_neg (by simp [hcall])]
      obtain ⟨houtput, hclosed⟩ := performAll_of_closed (closed_close w) calls
      have hagain := (perform_of_closed hclosed .close).1
      exact hagain.trans houtput

/-! ### Closing -/

/-- The outcome has come of making these calls to a sink, up to the first that failed. -/
def Outcome.Makes (o : Outcome) (sink : Sink) (calls : List SinkCall) : Prop :=
  ∃ failed, sink.sendAll calls = (o.writer.output.sink, failed) ∧ o.error = failed.map .sink

/-- One more call is made unless one before it has failed. -/
theorem Outcome.Makes.andThen {o : Outcome} {sink : Sink} {calls : List SinkCall}
    (h : o.Makes sink calls) (call : SinkCall) :
    (o.andThen (callSink · call)).Makes sink (calls ++ [call]) := by
  obtain ⟨failed, hsend, herror⟩ := h
  cases failed with
  | none =>
    rw [Outcome.andThen_ok herror]
    refine ⟨(o.writer.output.sink.send call).2, ?_, rfl⟩
    rw [Sink.sendAll_append, hsend]
    exact Sink.sendAll_singleton _ call
  | some reason =>
    -- after a failure no further call is made
    have hstop : o.andThen (callSink · call) = o := by rw [Outcome.andThen, herror]; rfl
    rw [hstop]
    exact ⟨some reason, by rw [Sink.sendAll_append, hsend], herror⟩

/-- What is unsent goes out in blocks of the encoder. -/
theorem makes_sendDecided (hcoded : w.output.charset.Encodes bytesOf) :
    ∃ blocks, blocks.flatten = w.unsent.flatMap bytesOf
      ∧ w.sendDecided.Makes w.output.sink (SinkCall.writes blocks) := by
  obtain ⟨blocks, hblocks, hsend⟩ := Output.sends_write hcoded w.unsent
  exact ⟨blocks, hblocks, _, hsend, rfl⟩

/-- **What closing a writer sends.** -/
theorem Unclosed.makes_close (h : Unclosed bytesOf w) :
    ∃ blocks, blocks.flatten = (w.unsent ++ w.completion).flatMap bytesOf
      ∧ w.close.Makes w.output.sink (SinkCall.writes blocks ++ [.flush] ++ [.close]) := by
  obtain ⟨blocks, hblocks, hsends⟩ := makes_sendDecided (w := w.completed) h.coded
  rw [unsent_completed] at hblocks
  refine ⟨blocks, hblocks, ?_⟩
  rw [close_eq h.opened]
  exact (hsends.andThen .flush).andThen .close

/-- **When the sink is closed.** A writer is given any calls, which may fail, and is given up or
closed in the end. When it is closed for the first time what is left of the document is written, and
the sink is flushed. If none of these calls fails the sink is closed, and otherwise it never is. It
is closed at most once, and no call follows. -/
theorem sink_closed_iff (settings : Settings) (sink : Sink) (hsink : .close ∉ sink.calls)
    (serializer : Serializer) (calls : List Call) (bytesOf : Char → List UInt8)
    (hcoded : settings.charset.Encodes bytesOf) :
    let w := (new settings sink serializer).performAll (calls.takeWhile (!·.isClose))
    let v := ((new settings sink serializer).performAll calls).abandon
    ∃ blocks, blocks.flatten = (w.unsent ++ w.completion).flatMap bytesOf
      ∧ v.output.sink
        = (w.output.sink.sendAll (SinkCall.writes blocks ++ [.flush] ++ [.close])).1
      ∧ (v.output.sink.calls.count .close = 1
          ↔ (w.output.sink.sendAll (SinkCall.writes blocks ++ [.flush])).2 = none)
      ∧ v.output.sink.calls.count .close ≤ 1
      ∧ ∀ later earlier, v.output.sink.calls = later ++ .close :: earlier → later = [] := by
  intro w v
  have hnew : Unclosed bytesOf (new settings sink serializer) :=
    ⟨rfl, (Reachable.new settings sink serializer).valid, hcoded, hsink⟩
  -- the calls before the first `close` leave the sink open
  have hw : Unclosed bytesOf w := hnew.performAll fun call hcall => by
    simpa using List.mem_takeWhile_imp hcall
  obtain ⟨blocks, hblocks, failed, hsends, -⟩ := hw.makes_close
  -- whichever call closes the writer, the later ones make no call to the sink
  have hv : v.output.sink
      = (w.output.sink.sendAll (SinkCall.writes blocks ++ [.flush] ++ [.close])).1 := by
    rw [hsends]
    exact congrArg Output.sink (output_abandon _ calls)
  have hlast : .close ∉ SinkCall.writes blocks ++ [.flush] := by
    simp [SinkCall.close_not_mem_writes]
  refine ⟨blocks, hblocks, hv, ?_⟩
  rw [hv]
  exact Sink.count_close_sendAll hlast hw.calls

/-- A flush that fails in the middle of a document does not matter: the rest of the document is
written in its code page and flushed in the end, and the sink is closed. -/
theorem closed_after_failed_flush :
    let page := CodePage.windows1252
    let settings : Settings := { charset := .other page.name page.encode }
    let sink : Sink :=
      { failure? := fun earlier _ => if earlier.length = 1 then some "busy".toList else none }
    let calls : List Call := [.writeTrusted "<a té".toList, .flush, .close, .flush]
    let w := (new settings sink).performAll (calls.takeWhile (!·.isClose))
    let v := ((new settings sink).performAll calls).abandon
    .close ∉ sink.calls ∧ settings.charset.Encodes (charBytes page.byte?)
      ∧ v.output.sink.calls.count .close = 1
      ∧ ∃ blocks, blocks.flatten = [0x74, 0xe9]
        ∧ (w.output.sink.sendAll (SinkCall.writes blocks ++ [.flush])).2 = none := by
  intro page settings sink calls w v
  have hsink : .close ∉ sink.calls := List.not_mem_nil
  have hcoded : settings.charset.Encodes (charBytes page.byte?) := page.encodes
  -- what is held back is sent with the closing, in the code page
  have hrest : (w.unsent ++ w.completion).flatMap (charBytes page.byte?) = [0x74, 0xe9] := by
    decide +kernel
  obtain ⟨blocks, hblocks, -, hiff, -⟩ :=
    sink_closed_iff settings sink hsink .default calls _ hcoded
  have hone : v.output.sink.calls.count .close = 1 := by decide +kernel
  rw [hrest] at hblocks
  subst v
  exact ⟨hsink, hcoded, hone, blocks, hblocks, hiff.mp hone⟩

/-- If the last flush fails the sink is not closed, neither by closing the writer once more nor by
giving it up. -/
theorem failed_flush_keeps_open :
    let sink : Sink :=
      { failure? := fun _ call => if call = .flush then some "flush 0 failed".toList else none }
    let w := ((new {} sink).writeTrusted ['x']).writer
    w.close.error = some (.sink "flush 0 failed".toList)
      ∧ w.close.writer.output.sink.calls = [.flush, .write [120]]
      ∧ w.close.writer.close.error = none
      ∧ w.close.writer.abandon.output.sink.calls.count .close = 0
      ∧ w.abandon.output.sink.calls.count .close = 0 := by
  decide +kernel

end Writer

end SafeMarkup
