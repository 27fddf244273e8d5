import SafeMarkup.Proofs.ClosedWriter
import SafeMarkup.Proofs.CommentValues
import SafeMarkup.Proofs.Refusals

/-!
# What a flush leaves unsent

Text that has been decided is sent by the write that decides it, not by a flush. A write that is
refused sends nothing, and what it has decided waits for the next write that is not refused
(`unsent_eq_nil_iff`). A flush in between succeeds without it (`unsent_of_flush`).
-/

namespace SafeMarkup

namespace Writer

variable {w : Writer} {call : Call} {calls : List Call} {text : Text}

/-! ### Calls that send -/

/-- Does the call write text? -/
def Call.isWrite : Call → Bool
  | .writeTrusted _ | .writeValue _ => true
  | .setSoft _ | .flush | .close => false

/-- Does the call write, with memory for what has to be held back? -/
def Sends (w : Writer) (call : Call) : Prop :=
  call.isWrite = true ∧ (w.perform call).HadMemory

/-- Is the call refused memory after it has decided some of its text? -/
def LeavesText (w : Writer) (call : Call) : Prop :=
  ¬ (w.perform call).HadMemory ∧ (w.perform call).writer.unsent ≠ w.unsent

/-- Does one of the calls write? -/
def SendsIn (w : Writer) : List Call → Prop
  | [] => False
  | call :: calls => w.Sends call ∨ (w.perform call).writer.SendsIn calls

/-- After each of the calls that leave text unsent, does a later one write? -/
def LeavesNothing (w : Writer) : List Call → Prop
  | [] => True
  | call :: calls =>
    (w.LeavesText call → (w.perform call).writer.SendsIn calls)
      ∧ (w.perform call).writer.LeavesNothing calls

/-! ### What calls do to unsent text -/

/-- What has been unsent is sent in front of the rest. -/
theorem output_advance (hmemory : (w.advance text).HadMemory) :
    (w.advance text).writer.unsent = []
      ∧ (w.advance text).writer.output
        = (w.output.write
            (w.unsent ++ (w.decided.advance false (w.held.text ++ text)).written)).1 := by
  rcases advance_of_append w text with ⟨e, -, hrefused⟩ | ⟨-, hsent⟩
  · rw [hrefused] at hmemory
    exact absurd rfl (hmemory e)
  · rw [hsent]
    exact ⟨rfl, rfl⟩

/-- What a refused text decides. -/
def decidedBy (w : Writer) (text : Text) : Text :=
  if w.held.isEmpty then (w.decided.advance false text).written else []

/-- A refused text leaves unsent what it has decided. -/
theorem unsent_of_refused (hrefused : ¬ (w.advance text).HadMemory) :
    (w.advance text).writer.unsent = w.unsent ++ w.decidedBy text := by
  obtain ⟨e, he⟩ := not_forall_not.mp hrefused
  rw [(writer_of_refused he).1]
  change (w.afterRefusal text).unsent = _
  rw [afterRefusal, decidedBy]
  split
  · rfl
  · rw [List.append_nil]

/-- A call leaves text if what it adds is not sent with it. -/
theorem leavesText_iff {left : Text}
    (hleft : (w.perform call).writer.unsent = w.unsent ++ left)
    (hrefused : left ≠ [] → ¬ (w.perform call).HadMemory) : w.LeavesText call ↔ left ≠ [] := by
  rw [LeavesText, hleft, ne_eq, List.append_right_eq_self]
  exact and_iff_right_of_imp hrefused

/-- A refused trusted text leaves what it decides, if nothing was held back before. -/
theorem leavesText_writeTrusted_iff (hopen : w.closed = false)
    (hrefused : ¬ (w.writeTrusted text).HadMemory) :
    w.LeavesText (.writeTrusted text) ↔ w.decidedBy text ≠ [] := by
  refine leavesText_iff ?_ fun _ => hrefused
  rw [perform]
  rw [writeTrusted_eq hopen] at hrefused ⊢
  exact unsent_of_refused hrefused

/-- **What a call does to unsent text.** It is sent by a call that writes, and stays with any other
call, which can leave more of it. -/
theorem unsent_perform (hopen : w.closed = false) (hcall : call.isClose = false) :
    (w.Sends call ∧ (w.perform call).writer.unsent = [])
      ∨ ¬ w.Sends call ∧ ∃ left, (w.perform call).writer.unsent = w.unsent ++ left
        ∧ (w.LeavesText call ↔ left ≠ []) := by
  have hsame (hwrite : call.isWrite = false)
      (hunsent : (w.perform call).writer.unsent = w.unsent) :
      ¬ w.Sends call ∧ ∃ left, (w.perform call).writer.unsent = w.unsent ++ left
        ∧ (w.LeavesText call ↔ left ≠ []) := by
    refine ⟨fun hsends => ?_, [], by rw [hunsent, List.append_nil],
      leavesText_iff (by rw [hunsent, List.append_nil]) fun hne => absurd rfl hne⟩
    rw [Sends, hwrite] at hsends
    cases hsends.1
  cases call with
  | writeTrusted text =>
    by_cases hmemory : (w.perform (.writeTrusted text)).HadMemory
    · refine .inl ⟨⟨rfl, hmemory⟩, ?_⟩
      rw [perform, writeTrusted_eq hopen] at hmemory ⊢
      exact (output_advance hmemory).1
    · have hleaves := leavesText_writeTrusted_iff hopen hmemory
      refine .inr ⟨fun hsends => hmemory hsends.2, w.decidedBy text, ?_, hleaves⟩
      rw [perform, writeTrusted_eq hopen] at hmemory ⊢
      exact unsent_of_refused hmemory
  | writeValue value =>
    -- quotes or a completed reference come before the value, and wait with it
    by_cases hmemory : (w.perform (.writeValue value)).HadMemory
    · refine .inl ⟨⟨rfl, hmemory⟩, ?_⟩
      rw [perform, writeValue_eq hopen] at hmemory ⊢
      exact (output_advance hmemory).1
    · have hready := w.unsent_ready_eq
      generalize w.completedReference ++ w.terminateCharRef.openedQuotes = before at hready
      have hleft : (w.perform (.writeValue value)).writer.unsent
          = w.unsent ++ (before ++ w.ready.decidedBy (w.ready.escapeValue value)) := by
        rw [perform, writeValue_eq hopen] at hmemory ⊢
        rw [unsent_of_refused hmemory, hready, List.append_assoc]
      exact .inr ⟨fun hsends => hmemory hsends.2, _, hleft, leavesText_iff hleft fun _ => hmemory⟩
  | setSoft soft => exact .inr (hsame rfl rfl)
  | flush => exact .inr (hsame rfl (by rw [perform, flush_eq hopen]; rfl))
  | close => cases hcall

theorem performAll_cons (w : Writer) (call : Call) (calls : List Call) :
    w.performAll (call :: calls) = (w.perform call).writer.performAll calls := rfl

/-- **When nothing is unsent.** -/
theorem unsent_eq_nil_iff (hopen : (w.performAll calls).closed = false) :
    (w.performAll calls).unsent = []
      ↔ (w.unsent ≠ [] → w.SendsIn calls) ∧ w.LeavesNothing calls := by
  induction calls generalizing w with
  | nil => simp [performAll, SendsIn, LeavesNothing]
  | cons call calls ih =>
    have hstart : w.closed = false := by
      by_contra hclosed
      rw [(performAll_of_closed (by simpa using hclosed) _).2] at hopen
      cases hopen
    rw [performAll_cons] at hopen ⊢
    have hcall : call.isClose = false := by
      cases call with
      | close =>
        rw [perform, (performAll_of_closed (closed_close w) calls).2] at hopen
        cases hopen
      | writeTrusted | writeValue | setSoft | flush => rfl
    -- the rest of the calls is the same on both sides, so it is about the first one
    rw [ih hopen, SendsIn, LeavesNothing, ← and_assoc, and_congr_left_iff]
    intro _
    rcases unsent_perform hstart hcall with ⟨hsends, hnone⟩ | ⟨hsends, left, hleft, hleaves⟩
    · have hleaves : ¬ w.LeavesText call := fun hleaves => hleaves.1 hsends.2
      simp [hnone, hsends, hleaves]
    · rw [hleft, hleaves, or_iff_right hsends, ← or_imp, ne_eq, ne_eq, List.append_eq_nil_iff,
        not_and_or]

/-- **What a flush leaves unsent.** A writer that is open has been given any calls, which may have
failed. A flush makes one call to the sink and sends no text. It leaves no decided text unsent if
and only if after each refused write that has decided some of its text there has been another write
that was not refused. What is left is sent in front of the next such text. -/
theorem unsent_of_flush (settings : Settings) (sink : Sink) (serializer : Serializer)
    (calls : List Call) (hopen : ((new settings sink serializer).performAll calls).closed = false) :
    let w := (new settings sink serializer).performAll calls
    let flushed := w.flush.writer
    flushed.output.sink.calls = .flush :: w.output.sink.calls
      ∧ flushed.unsent = w.unsent
      ∧ (flushed.unsent = [] ↔ (new settings sink serializer).LeavesNothing calls)
      ∧ ∀ text, (flushed.writeTrusted text).HadMemory →
        (flushed.writeTrusted text).writer.unsent = []
          ∧ (flushed.writeTrusted text).writer.output
            = (flushed.output.write (flushed.unsent
              ++ (w.decided.advance false (w.held.text ++ text)).written)).1 := by
  intro w flushed
  have hflushed : w.flush = w.callSink .flush := flush_eq hopen
  have hunsent : flushed.unsent = w.unsent := by
    change w.flush.writer.unsent = _
    rw [hflushed]
    rfl
  refine ⟨?_, hunsent, ?_, fun text hmemory => ?_⟩
  · change w.flush.writer.output.sink.calls = _
    rw [hflushed]
    rfl
  · rw [hunsent, unsent_eq_nil_iff hopen]
    exact and_iff_right fun hne => absurd rfl hne
  · have hopen' : flushed.closed = false := by
      change w.flush.writer.closed = false
      rw [hflushed]
      exact hopen
    -- the flush changes nothing but the calls to the sink
    have hplace : flushed.decided = w.decided ∧ flushed.held = w.held := by
      change w.flush.writer.decided = _ ∧ w.flush.writer.held = _
      rw [hflushed]
      exact ⟨rfl, rfl⟩
    rw [writeTrusted_eq hopen'] at hmemory ⊢
    rw [← hplace.1, ← hplace.2]
    exact output_advance hmemory

/-- Another space is enough for the start of a refused tag to be sent. -/
theorem start_of_tag_is_sent_later :
    let settings : Settings := { preallocated := 0, memoryLimit := 2 }
    let sink : Sink := { failure? := fun _ _ => none }
    let calls := [Call.writeTrusted "<a href".toList, .flush, .writeTrusted " ".toList]
    let w := (new settings sink).performAll calls
    w.closed = false ∧ w.flush.error = none ∧ w.flush.writer.unsent = []
      ∧ (new settings sink).LeavesNothing calls := by
  intro settings sink calls w
  have hopen : w.closed = false := by decide +kernel
  have hnone : w.flush.writer.unsent = [] := by decide +kernel
  obtain ⟨-, -, hiff, -⟩ := unsent_of_flush settings sink .default calls hopen
  exact ⟨hopen, by decide +kernel, hnone, hiff.mp hnone⟩

/-- **A flush succeeds and leaves the start of a tag unsent.** -/
theorem flush_leaves_start_of_tag :
    let refused := (new { preallocated := 0, memoryLimit := 2 }
      { failure? := fun _ _ => none }).writeTrusted "<a href".toList
    let w := refused.writer
    Reachable w ∧ w.closed = false ∧ refused.error = some (.heldTextLimit ⟨4, 2⟩)
      ∧ w.flush.error = none ∧ w.flush.writer.unsent = "<a ".toList
      ∧ w.flush.writer.output.sink.calls = [.flush] :=
  ⟨.call _ (.new _ _ _) (.writeTrusted _), by decide +kernel, by decide +kernel, by decide +kernel,
    by decide +kernel, by decide +kernel⟩

end Writer

end SafeMarkup
