import SafeMarkup.Sink
import SafeMarkup.Proofs.ByteView

/-!
# Calls to a sink

A sink gets its calls one after the other, up to the first that fails (`Sink.sendAll`). Bytes are
sent in blocks, and it does not matter where one block ends and the next one starts: `Sink.Sends`
says which bytes have been sent, `Sink.Delivers` that they all have arrived.
-/

namespace SafeMarkup

theorem Text.utf8Bytes_append (a b : Text) :
    Text.utf8Bytes (a ++ b) = Text.utf8Bytes a ++ Text.utf8Bytes b := List.flatMap_append

/-- Every character has a byte. -/
theorem Text.utf8Bytes_eq_nil {t : Text} (h : Text.utf8Bytes t = []) : t = [] := by
  cases t with
  | nil => rfl
  | cons c t =>
    have hlen := congrArg List.length (List.append_eq_nil_iff.mp h).1
    rw [String.length_utf8EncodeChar] at hlen
    exact absurd hlen (Nat.ne_of_gt c.utf8Size_pos)

/-- The bytes that a call sends. -/
def SinkCall.bytes : SinkCall → List UInt8
  | .write bytes => bytes
  | .flush | .close => []

/-- The calls in which blocks of bytes are written. There is none for an empty block. -/
def SinkCall.writes (blocks : List (List UInt8)) : List SinkCall :=
  blocks.flatMap fun bytes => if bytes.isEmpty then [] else [.write bytes]

theorem SinkCall.writes_append (a b : List (List UInt8)) :
    SinkCall.writes (a ++ b) = SinkCall.writes a ++ SinkCall.writes b := List.flatMap_append

/-- Sending blocks of bytes sends their bytes. -/
theorem SinkCall.bytes_writes (blocks : List (List UInt8)) :
    (SinkCall.writes blocks).flatMap SinkCall.bytes = blocks.flatten := by
  induction blocks with
  | nil => rfl
  | cons bytes blocks ih =>
    have hfirst : (SinkCall.writes [bytes]).flatMap SinkCall.bytes = bytes := by
      cases bytes <;> simp [SinkCall.writes, SinkCall.bytes]
    rw [List.flatten_cons, ← ih, ← List.singleton_append, writes_append, List.flatMap_append,
      hfirst]

namespace Sink

/-- All bytes that have been sent, in order. -/
def sent (sink : Sink) : List UInt8 := sink.calls.reverse.flatMap SinkCall.bytes

/-- Does the sink take every call? -/
def IsReliable (sink : Sink) : Prop := ∀ earlier call, sink.failure? earlier call = none

variable {sink : Sink}

/-- `bytes` have been sent to a reliable sink, and nothing has failed. -/
structure Delivers (sink : Sink) (bytes : List UInt8) (next : Sink) (failed : Option Text) :
    Prop where
  failed : failed = none
  reliable : next.IsReliable
  sent : next.sent = sink.sent ++ bytes

theorem delivers_nil (h : sink.IsReliable) : sink.Delivers [] sink none :=
  ⟨rfl, h, (List.append_nil _).symm⟩

theorem Delivers.trans {a b : List UInt8} {next last : Sink} {failed failed' : Option Text}
    (h : sink.Delivers a next failed) (h' : next.Delivers b last failed') :
    sink.Delivers (a ++ b) last failed' :=
  ⟨h'.failed, h'.reliable, by rw [h'.sent, h.sent, List.append_assoc]⟩

theorem sent_send (sink : Sink) (call : SinkCall) :
    (sink.send call).1.sent = sink.sent ++ call.bytes := by
  simp [send, sent]

theorem delivers_send (h : sink.IsReliable) (call : SinkCall) :
    sink.Delivers call.bytes (sink.send call).1 (sink.send call).2 :=
  ⟨h _ call, h, sink.sent_send call⟩

/-- Makes one call after the other, up to the first that fails. -/
def sendAll (sink : Sink) : List SinkCall → Sink × Option Text
  | [] => (sink, none)
  | call :: calls =>
    match sink.send call with
    | (next, none) => next.sendAll calls
    | failed => failed

theorem sendAll_singleton (sink : Sink) (call : SinkCall) :
    sink.sendAll [call] = sink.send call := by
  rw [sendAll]
  rcases sink.send call with ⟨next, _ | reason⟩ <;> rfl

theorem sendAll_append (sink : Sink) (a b : List SinkCall) :
    sink.sendAll (a ++ b) =
      match sink.sendAll a with
      | (next, none) => next.sendAll b
      | failed => failed := by
  induction a generalizing sink with
  | nil => rfl
  | cons call a ih =>
    rw [List.cons_append, sendAll, sendAll]
    rcases sink.send call with ⟨next, _ | reason⟩
    · exact ih next
    · rfl

/-- Calls that all succeed send all their bytes. -/
theorem sent_sendAll {calls : List SinkCall} (hok : (sink.sendAll calls).2 = none) :
    (sink.sendAll calls).1.sent = sink.sent ++ calls.flatMap SinkCall.bytes := by
  -- on the calls, of which the first one must have succeeded
  induction calls generalizing sink with
  | nil => exact (List.append_nil _).symm
  | cons call calls ih =>
    have hsent := sink.sent_send call
    rw [sendAll] at hok ⊢
    generalize sink.send call = answer at *
    obtain ⟨next, _ | reason⟩ := answer
    · rw [List.flatMap_cons, ← List.append_assoc, ← hsent]
      exact ih hok
    · cases hok

/-- If none fails all of them have been made. -/
theorem calls_sendAll {calls : List SinkCall} (hok : (sink.sendAll calls).2 = none) :
    (sink.sendAll calls).1.calls = calls.reverse ++ sink.calls := by
  induction calls generalizing sink with
  | nil => rfl
  | cons call calls ih =>
    have hcalls : (sink.send call).1.calls = call :: sink.calls := rfl
    rw [sendAll] at hok ⊢
    generalize sink.send call = answer at *
    obtain ⟨next, _ | reason⟩ := answer
    · rw [List.reverse_cons, List.append_assoc, List.singleton_append, ← hcalls]
      exact ih hok
    · cases hok

/-- A reliable sink delivers all calls. -/
theorem delivers_sendAll (h : sink.IsReliable) (calls : List SinkCall) :
    sink.Delivers (calls.flatMap SinkCall.bytes) (sink.sendAll calls).1 (sink.sendAll calls).2 := by
  induction calls generalizing sink with
  | nil => exact delivers_nil h
  | cons call calls ih =>
    have hfirst := delivers_send h call
    rw [sendAll]
    generalize sink.send call = answer at *
    obtain ⟨next, failed⟩ := answer
    obtain rfl : failed = none := hfirst.failed
    exact hfirst.trans (ih hfirst.reliable)

/-- `bytes` have been sent in blocks, up to the first call that fails. -/
def Sends (sink : Sink) (bytes : List UInt8) (next : Sink) (failed : Option Text) : Prop :=
  ∃ blocks : List (List UInt8), blocks.flatten = bytes
    ∧ sink.sendAll (SinkCall.writes blocks) = (next, failed)

variable {a b bytes : List UInt8} {next last : Sink} {failed : Option Text}

theorem sends_nil (sink : Sink) : sink.Sends [] sink none := ⟨[], rfl, rfl⟩

/-- A block of bytes is sent in one call, or in none if it is empty. -/
theorem sends_sendBytes (sink : Sink) (bytes : List UInt8) :
    sink.Sends bytes (sink.sendBytes bytes).1 (sink.sendBytes bytes).2 := by
  refine ⟨[bytes], List.append_nil bytes, ?_⟩
  unfold sendBytes SinkCall.writes
  rw [List.flatMap_singleton]
  by_cases hnone : bytes.isEmpty = true
  · rw [if_pos hnone, if_pos hnone]
    rfl
  · rw [if_neg hnone, if_neg hnone, sendAll_singleton]

/-- Bytes that are sent after a success come after the others. -/
theorem Sends.trans (h : sink.Sends a next none) (h' : next.Sends b last failed) :
    sink.Sends (a ++ b) last failed := by
  obtain ⟨blocks, rfl, hsend⟩ := h
  obtain ⟨more, rfl, hsend'⟩ := h'
  refine ⟨blocks ++ more, List.flatten_append, ?_⟩
  rw [SinkCall.writes_append, sendAll_append, hsend]
  exact hsend'

/-- What would have been sent after a call that fails is lost. -/
theorem Sends.append_of_failed {reason : Text} (h : sink.Sends a next (some reason)) :
    sink.Sends (a ++ b) next (some reason) := by
  obtain ⟨blocks, rfl, hsend⟩ := h
  refine ⟨blocks ++ [b], by rw [List.flatten_append, List.flatten_singleton], ?_⟩
  rw [SinkCall.writes_append, sendAll_append, hsend]

/-- Calls that succeed send exactly the bytes. -/
theorem Sends.sent (h : sink.Sends bytes next none) : next.sent = sink.sent ++ bytes := by
  obtain ⟨blocks, rfl, hsend⟩ := h
  have hok : (sink.sendAll (SinkCall.writes blocks)).2 = none := by rw [hsend]
  have hsent := sent_sendAll hok
  rwa [hsend, SinkCall.bytes_writes] at hsent

/-- A reliable sink delivers what is sent. -/
theorem Sends.delivers (h : sink.Sends bytes next failed) (hsink : sink.IsReliable) :
    sink.Delivers bytes next failed := by
  obtain ⟨blocks, rfl, hsend⟩ := h
  have hdelivers := delivers_sendAll hsink (SinkCall.writes blocks)
  rwa [hsend, SinkCall.bytes_writes] at hdelivers

end Sink

end SafeMarkup
