import SafeMarkup.Proofs.Output
import SafeMarkup.Proofs.Reachable

/-!
# Runs of a writer

A run makes one call after the other until one fails. With a reliable sink, and memory for all text
that a call could have to hold back, no call fails (`followed_of_fits`), and what a call does can be
said without the sink and without the account of the memory (`Followed`).
-/

namespace SafeMarkup

/-- The end of a text is no larger than the text. -/
theorem Text.utf8Size_le_of_suffix {a t : Text} (h : a <:+ t) :
    Text.utf8Size a ≤ Text.utf8Size t := by
  obtain ⟨b, rfl⟩ := h
  rw [Text.utf8Size_append]
  omega

namespace Writer

variable {w v : Writer} {text : Text} {bytesOf : Char → List UInt8}

/-! ### Runs -/

theorem Outcome.andThen_ok {o : Outcome} (h : o.error = none) (call : Writer → Outcome) :
    o.andThen call = call o.writer := by
  rw [Outcome.andThen, h]

theorem Outcome.error_andThen {o : Outcome} {call : Writer → Outcome} :
    (o.andThen call).error = none ↔ o.error = none ∧ (call o.writer).error = none := by
  cases h : o.error <;> simp [Outcome.andThen, h]

/-- Makes one call after the other, up to the first that fails. -/
def run (w : Writer) : List Call → Outcome
  | [] => { writer := w }
  | call :: calls => (w.perform call).andThen (·.run calls)

/-- A run goes on where it is cut, unless it has failed. -/
theorem run_append (w : Writer) (a b : List Call) :
    w.run (a ++ b) = (w.run a).andThen (·.run b) := by
  induction a generalizing w with
  | nil => rfl
  | cons call a ih =>
    rw [List.cons_append, run, run]
    cases h : (w.perform call).error with
    | none => rw [Outcome.andThen_ok h, Outcome.andThen_ok h, ih]
    | some e => simp [Outcome.andThen, h]

@[simp] theorem run_singleton (w : Writer) (call : Call) : w.run [call] = w.perform call := by
  rw [run]
  cases h : (w.perform call).error with
  | none =>
    rw [Outcome.andThen_ok h]
    exact congrArg (Outcome.mk _) h.symm
  | some e => rw [Outcome.andThen, h]

/-- The calls that an operation is made up of. -/
def Operation.calls : Operation → List Call
  | .writeTrusted text => [.writeTrusted text]
  | .writeValue value | .print value => [.writeValue value]
  | .writeValueLine value => [.writeValue value, .writeTrusted ['\n']]
  | .newLine => [.writeTrusted ['\n']]
  | .writeChar c => [.writeTrusted [c]]
  | .writeFormatted text => [.writeValue (.str text)]
  | .setSoft soft => [.setSoft soft]
  | .flush => [.flush]
  | .close => [.close]

/-- **An operation makes its calls**, up to the first that fails. -/
theorem operate_eq_run (w : Writer) (operation : Operation) :
    w.operate operation = w.run operation.calls := by
  -- only a value with its line is more than one call
  cases operation with
  | writeValueLine value =>
    have hline (v : Writer) : v.run [.writeTrusted ['\n']] = v.newLine := run_singleton _ _
    rw [operate, writeValueLine, Operation.calls, run]
    simp only [hline]
    rfl
  | _ =>
    rw [Operation.calls, run_singleton]
    rfl

/-- A run stays among the reachable writers. -/
theorem Reachable.run (h : Reachable w) (calls : List Call) : Reachable (w.run calls).writer := by
  induction calls generalizing w with
  | nil => exact h
  | cons call calls ih =>
    rw [Writer.run, Outcome.andThen]
    split
    · exact h.call w call
    · exact ih (h.call w call)

/-- All bytes that the sink has got. -/
def sent (w : Writer) : List UInt8 := w.output.sink.sent

theorem sent_callSink (w : Writer) (call : SinkCall) :
    (w.callSink call).writer.sent = w.sent ++ call.bytes := w.output.sink.sent_send call

theorem flush_eq (hopen : w.closed = false) : w.flush = w.callSink .flush := by
  rw [flush, if_neg (by simp [hopen])]

/-! ### Following a text -/

/-- `next` is the writer `w` after it has made the progress `p` and sent all of it, each character
as `bytesOf` says. -/
structure Followed (bytesOf : Char → List UInt8) (w : Writer) (p : Progress) (next : Writer) :
    Prop where
  decided : next.decided = p.context
  held : next.held.text = p.held
  unsent : next.unsent = []
  sent : next.sent = w.sent ++ (w.unsent ++ p.written).flatMap bytesOf
  options : next.options = w.options

/-- Nothing will go wrong with this writer: the sink takes every call, the encoder does its work,
and the account of the memory is right. -/
structure Steady (bytesOf : Char → List UInt8) (w : Writer) : Prop where
  sink : w.output.sink.IsReliable
  coded : w.output.charset.Encodes bytesOf
  account : w.held.usage = w.held.reserved

/-- There is memory for a text that follows what is held back. -/
def Fits (w : Writer) (text : Text) : Prop :=
  Text.utf8Size (w.held.text ++ text) ≤ w.held.limit

instance (w : Writer) (text : Text) : Decidable (w.Fits text) := inferInstanceAs (Decidable (_ ≤ _))

theorem append_of_fits {held : HeldText} (haccount : held.usage = held.reserved) {more : Text}
    (hfits : Text.utf8Size (held.text ++ more) ≤ held.limit) :
    (held.append more).2 = none ∧ (held.append more).1.text = held.text ++ more
      ∧ (held.append more).1.usage = (held.append more).1.reserved
      ∧ (held.append more).1.limit = held.limit := by
  simp only [HeldText.append]
  split
  · exact ⟨rfl, rfl, haccount, rfl⟩
  · rw [if_pos (by omega)]
    exact ⟨rfl, rfl, by dsimp only; omega, rfl⟩

/-- Decided text is sent without fail. -/
theorem steady_sendDecided (h : Steady bytesOf w) :
    w.sendDecided.error = none
      ∧ w.sendDecided.writer.sent = w.sent ++ w.unsent.flatMap bytesOf
      ∧ w.sendDecided.writer.output.charset = w.output.charset
      ∧ Steady bytesOf w.sendDecided.writer := by
  have hwrite := Output.delivers_write h.coded h.sink w.unsent
  have hcharset := w.output.charset_write w.unsent
  have hcoded : w.sendDecided.writer.output.charset.Encodes bytesOf := hcharset.symm ▸ h.coded
  refine ⟨?_, hwrite.sent, hcharset, hwrite.reliable, hcoded, h.account⟩
  show (w.output.write w.unsent).2.map WriterError.sink = none
  rw [hwrite.failed]
  rfl

/-- A call that sends no text changes nothing. -/
theorem steady_callSink (h : Steady bytesOf w) {call : SinkCall} (hcall : call.bytes = []) :
    (w.callSink call).error = none ∧ (w.callSink call).writer.sent = w.sent
      ∧ Steady bytesOf (w.callSink call).writer := by
  have hsend := Sink.delivers_send h.sink call
  refine ⟨?_, ?_, hsend.reliable, h.coded, h.account⟩
  · show (w.output.sink.send call).2.map WriterError.sink = none
    rw [hsend.failed]
    rfl
  · rw [sent_callSink, hcall, List.append_nil]

theorem followed_of_sendDecided (hs : Steady bytesOf w) {p : Progress} {held : HeldText}
    (hheld : held.text = p.held) (haccount : held.usage = held.reserved)
    (hlimit : held.limit = w.held.limit) :
    (sendDecided { w.record p.context p.written with held }).error = none
      ∧ Followed bytesOf w p (sendDecided { w.record p.context p.written with held }).writer
      ∧ Steady bytesOf (sendDecided { w.record p.context p.written with held }).writer := by
  have hrecorded : Steady bytesOf { w.record p.context p.written with held } :=
    ⟨hs.sink, hs.coded, haccount⟩
  obtain ⟨hok, hsent, hcharset, hs'⟩ := steady_sendDecided hrecorded
  refine ⟨hok, ⟨rfl, hheld, rfl, hsent, ?_⟩, hs'⟩
  show (_, _, _, _, (w.output.write (w.unsent ++ p.written)).1.charset, held.limit) = _
  rw [hlimit]
  exact congrArg (fun charset => (_, _, _, _, charset, _)) hcharset

/-- What a call asks memory for, besides what is held back already. -/
def asked (w : Writer) (text : Text) : Text :=
  if w.held.isEmpty then (w.decided.advance false text).held else text

/-- No more memory is asked for than for the text. -/
theorem asked_suffix (w : Writer) (text : Text) : w.asked text <:+ text := by
  unfold asked
  split
  · exact w.decided.held_suffix false text
  · exact List.suffix_refl text

/-- The writer after it has been refused memory for a text, but for the account of the memory. Where
nothing is held back the text has been followed by then. -/
def afterRefusal (w : Writer) (text : Text) : Writer :=
  if w.held.isEmpty then
    let p := w.decided.advance false text
    w.record p.context p.written
  else w

/-- **A text is refused, or followed and sent, as the memory for it is refused or not.** -/
theorem advance_of_append (w : Writer) (text : Text) :
    let p := w.decided.advance false (w.held.text ++ text)
    let appended := w.held.append (w.asked text)
    (∃ e, appended.2 = some e ∧ w.advance text
        = { writer := { w.afterRefusal text with held := appended.1 }
            error := some (.heldTextLimit e) })
      ∨ appended.2 = none ∧ w.advance text
        = sendDecided { w.record p.context p.written with held := appended.1.keep p.held } := by
  -- with nothing held back the memory is asked for what the text leaves, else for all of it
  unfold Writer.advance asked afterRefusal
  split
  · next hempty =>
    have hnone : w.held.text = [] := List.isEmpty_iff.mp hempty
    rw [hnone, List.nil_append]
    generalize w.decided.advance false text = p
    dsimp only
    rw [show (w.record p.context p.written).held = w.held from rfl]
    by_cases hheld : p.held.isEmpty = true
    · -- there is always memory for no text
      have happend : w.held.append p.held = (w.held, none) := by
        rw [List.isEmpty_iff.mp hheld, HeldText.append, hnone]
        exact (if_pos (Nat.zero_le _)).trans (by rw [List.append_nil, ← hnone])
      have hkeep : w.held.keep p.held = w.held := by
        rw [List.isEmpty_iff.mp hheld, ← hnone]
        rfl
      rw [if_pos hheld, happend, hkeep]
      exact .inr ⟨rfl, rfl⟩
    · rw [if_neg hheld]
      have happend := text_append w.held p.held
      generalize w.held.append p.held = appended at happend ⊢
      obtain ⟨held, refused⟩ := appended
      rcases happend with ⟨rfl, ht⟩ | ⟨⟨e, rfl⟩, -⟩
      · have hkeep : held.keep p.held = held := by
          rw [← List.nil_append p.held, ← hnone, ← ht]
          rfl
        rw [hkeep]
        exact .inr ⟨rfl, rfl⟩
      · exact .inl ⟨e, rfl, rfl⟩
  · have happend := text_append w.held text
    dsimp only
    generalize w.held.append text = appended at happend ⊢
    obtain ⟨held, refused⟩ := appended
    rcases happend with ⟨rfl, ht⟩ | ⟨⟨e, rfl⟩, -⟩
    · rw [← ht]
      exact .inr ⟨rfl, rfl⟩
    · exact .inl ⟨e, rfl, rfl⟩

/-- **With memory for it a text is followed without fail.** -/
theorem followed_of_fits (hs : Steady bytesOf w) (hfits : w.Fits text) :
    (w.advance text).error = none
      ∧ Followed bytesOf w (w.decided.advance false (w.held.text ++ text)) (w.advance text).writer
      ∧ Steady bytesOf (w.advance text).writer := by
  -- no more is asked for than what is held back and the text
  have hasked : Text.utf8Size (w.held.text ++ w.asked text) ≤ w.held.limit := by
    have hsuffix := Text.utf8Size_le_of_suffix (w.asked_suffix text)
    have := hfits
    rw [Fits, Text.utf8Size_append] at this
    rw [Text.utf8Size_append]
    omega
  obtain ⟨hok, -, haccount, hlimit⟩ := append_of_fits hs.account hasked
  rcases advance_of_append w text with ⟨e, he, -⟩ | ⟨-, hsent⟩
  · rw [hok] at he
    cases he
  · rw [hsent]
    exact followed_of_sendDecided hs rfl haccount hlimit

end Writer

end SafeMarkup
