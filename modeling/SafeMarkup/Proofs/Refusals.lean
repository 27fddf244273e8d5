import SafeMarkup.Proofs.CheckedSizes

/-!
# Refused writes

A write is refused when there is no memory for what has to be held back. It sends nothing, and no
more is held back than before, but it is not without effect (`refused_write_effect`). Where nothing
was held back before, the text has been followed by then: what it decides has been decided, and is
sent with the next text that is written. And the memory that has been asked for counts, so that no
further memory is ever given. Apart from that later calls do the same as if the write had not been
made, up to the first that asks for memory.
-/

namespace SafeMarkup

namespace HeldText

variable {held : HeldText} {more : Text} {usage : Nat}

/-- The same text in the same memory, after other requests for memory. -/
def charged (held : HeldText) (usage : Nat) : HeldText := { held with usage }

/-! ### Requests for memory -/

/-- Nothing is asked for text that there is memory for. -/
theorem append_within (h : Text.utf8Size (held.text ++ more) ≤ held.reserved) :
    held.append more = (held.keep (held.text ++ more), none) :=
  if_pos h

/-- **A request that is refused has been counted.** -/
theorem append_beyond (h : held.reserved < Text.utf8Size (held.text ++ more))
    (hlimit : held.limit < held.usage + (Text.utf8Size (held.text ++ more) - held.reserved)) :
    let usage := held.usage + (Text.utf8Size (held.text ++ more) - held.reserved)
    held.append more = (held.charged usage, some ⟨usage, held.limit⟩) := by
  rw [append, if_neg (by omega), if_neg (by omega)]
  rfl

/-- Only a request for more than the limit is refused. -/
theorem append_refused {e : LimitExceeded} (h : (held.append more).2 = some e) :
    (held.append more).1 = held.charged e.usage ∧ held.usage < e.usage
      ∧ held.limit < e.usage := by
  by_cases hsize : Text.utf8Size (held.text ++ more) ≤ held.reserved
  · rw [append_within hsize] at h
    cases h
  by_cases hlimit : held.usage + (Text.utf8Size (held.text ++ more) - held.reserved) ≤ held.limit
  · rw [append, if_neg hsize, if_pos hlimit] at h
    cases h
  · rw [append_beyond (by omega) (by omega)] at h ⊢
    cases h
    exact ⟨rfl, by dsimp only; omega, by dsimp only; omega⟩

/-- A request does not move the limit. -/
theorem limit_append (held : HeldText) (more : Text) :
    (held.append more).1.limit = held.limit := by
  simp only [append]
  split
  · rfl
  split <;> rfl

end HeldText

namespace Writer

variable {w : Writer} {text : Text} {call : Call} {calls : List Call} {usage : Nat}
  {e : LimitExceeded}

/-! ### Other requests for memory -/

/-- The same writer after other requests for memory. -/
def charged (w : Writer) (usage : Nat) : Writer := { w with held := w.held.charged usage }

/-- The outcome with another count. -/
def Outcome.charged (o : Outcome) (usage : Nat) : Outcome :=
  { o with writer := o.writer.charged usage }

/-- Does the text ask for memory? -/
def AsksFor (w : Writer) (text : Text) : Prop :=
  w.held.reserved < Text.utf8Size (w.held.text ++ w.asked text)

/-- Does the call ask for memory? -/
def Asks (w : Writer) : Call → Prop
  | .writeTrusted text => w.closed = false ∧ w.AsksFor text
  | .writeValue value => w.closed = false ∧ w.ready.AsksFor (w.ready.escapeValue value)
  | .setSoft _ | .flush | .close => False

/-- Do all calls manage with the memory that there is? -/
def Manages (w : Writer) : List Call → Prop
  | [] => True
  | call :: calls => ¬ w.Asks call ∧ (w.perform call).writer.Manages calls

/-- The errors of calls that are made one after the other, whether they fail or not. -/
def errors (w : Writer) : List Call → List (Option WriterError)
  | [] => []
  | call :: calls => (w.perform call).error :: (w.perform call).writer.errors calls

theorem ready_charged (w : Writer) (usage : Nat) :
    (w.charged usage).ready = w.ready.charged usage := by
  have hreference : (w.charged usage).terminateCharRef = w.terminateCharRef.charged usage := by
    unfold terminateCharRef
    change (if (w.decided.inAttrValue && !w.held.isEmpty) = true then _ else _) = _
    split <;> rfl
  rw [ready, ready, hreference]
  generalize w.terminateCharRef = w
  -- the place does not depend on the count, so both do the same
  unfold beginValue
  change (if w.context.state = .beforeValue then _ else _) = _
  split <;> rfl

/-- A text that asks for no memory is not refused. -/
theorem advance_within (h : ¬ w.AsksFor text) :
    let p := w.decided.advance false (w.held.text ++ text)
    w.advance text
      = sendDecided { w.record p.context p.written with held := w.held.keep p.held } := by
  have happend := HeldText.append_within (Nat.not_lt.mp h)
  rcases advance_of_append w text with ⟨e, he, -⟩ | ⟨-, hsent⟩
  · rw [happend] at he
    cases he
  · rw [hsent, happend]
    rfl

/-- It does not matter to it how much has been asked for before. -/
theorem advance_charged (h : ¬ w.AsksFor text) (usage : Nat) :
    (w.charged usage).advance text = (w.advance text).charged usage := by
  have h' : ¬ (w.charged usage).AsksFor text := h
  rw [advance_within h, advance_within h']
  rfl

/-- A text that asks for memory is refused once more than the limit has been asked for. -/
theorem advance_beyond (h : w.AsksFor text) (hlimit : w.held.limit < usage) :
    ∃ e, ((w.charged usage).advance text).error = some (.heldTextLimit e) := by
  have happend : (w.held.charged usage).append (w.asked text) = (_, some _) :=
    HeldText.append_beyond h (Nat.lt_of_lt_of_le hlimit (Nat.le_add_right _ _))
  rcases advance_of_append (w.charged usage) text with ⟨e, -, hrefused⟩ | ⟨hnone, -⟩
  · exact ⟨e, by rw [hrefused]⟩
  · change ((w.held.charged usage).append (w.asked text)).2 = none at hnone
    rw [happend] at hnone
    cases hnone

theorem andThen_charged {call : Writer → Outcome}
    (hcall : ∀ w : Writer, call (w.charged usage) = (call w).charged usage) (o : Outcome) :
    (o.charged usage).andThen call = (o.andThen call).charged usage := by
  obtain ⟨w, _ | e⟩ := o
  · exact hcall w
  · rfl

/-- **What calls do that ask for no memory** does not depend on other requests for it. -/
theorem perform_charged (h : ¬ w.Asks call) (usage : Nat) :
    (w.charged usage).perform call = (w.perform call).charged usage := by
  by_cases hopen : w.closed = false
  · have hopen' : (w.charged usage).closed = false := hopen
    cases call with
    | writeTrusted text =>
      have hwithin : ¬ w.AsksFor text := fun hasks => h ⟨hopen, hasks⟩
      rw [perform, perform, writeTrusted_eq hopen, writeTrusted_eq hopen']
      exact advance_charged hwithin usage
    | writeValue value =>
      have hwithin : ¬ w.ready.AsksFor (w.ready.escapeValue value) := fun hasks => h ⟨hopen, hasks⟩
      rw [perform, perform, writeValue_eq hopen, writeValue_eq hopen', ready_charged]
      exact advance_charged hwithin usage
    | setSoft soft => rfl
    | flush =>
      rw [perform, perform, flush_eq hopen, flush_eq hopen']
      rfl
    | close =>
      -- held back text is decided then, which needs no memory
      rw [perform, perform, close_eq hopen, close_eq hopen']
      have hsent : (w.charged usage).completed.sendDecided
          = w.completed.sendDecided.charged usage := rfl
      rw [hsent, andThen_charged fun _ => rfl, andThen_charged fun _ => rfl]
  · -- a closed writer refuses the call for another reason, or ignores it
    have hclosed : w.closed = true := by simpa using hopen
    have hclosed' : (w.charged usage).closed = true := hclosed
    cases call with
    | setSoft soft => rfl
    | _ =>
      simp [perform, writeTrusted, writeValue, flush, close, hclosed, hclosed', Outcome.charged]

/-- **A run that manages with the memory that there is** does the same after other requests. -/
theorem performAll_charged (h : w.Manages calls) (usage : Nat) :
    (w.charged usage).errors calls = w.errors calls
      ∧ (w.charged usage).performAll calls = (w.performAll calls).charged usage := by
  induction calls generalizing w with
  | nil => exact ⟨rfl, rfl⟩
  | cons call calls ih =>
    -- the next writer has the same requests counted, which is what the induction needs
    obtain ⟨herrors, hwriter⟩ := ih h.2
    have hcall := perform_charged h.1 usage
    refine ⟨?_, ?_⟩
    · rw [errors, errors, hcall]
      exact congrArg _ herrors
    · change ((w.charged usage).perform call).writer.performAll calls = _
      rw [hcall]
      exact hwriter

/-! ### The limit -/

/-- No call changes the limit. -/
theorem limit_performAll (w : Writer) (calls : List Call) :
    (w.performAll calls).held.limit = w.held.limit :=
  held_performAll (P := fun held => held.limit = w.held.limit) (fun _ _ h => h)
    (fun held more h => (held.limit_append more).trans h) rfl calls

/-- Once more than the limit has been asked for, every call that asks for memory is refused. -/
theorem perform_beyond (h : w.Asks call) (hlimit : w.held.limit < usage) :
    ∃ e, ((w.charged usage).perform call).error = some (.heldTextLimit e) := by
  cases call with
  | writeTrusted text =>
    have hopen' : (w.charged usage).closed = false := h.1
    rw [perform, writeTrusted_eq hopen']
    exact advance_beyond h.2 hlimit
  | writeValue value =>
    have hopen' : (w.charged usage).closed = false := h.1
    obtain ⟨kept, hheld⟩ := w.held_ready
    have hlimit' : w.ready.held.limit < usage := hheld ▸ hlimit
    rw [perform, writeValue_eq hopen', ready_charged]
    exact advance_beyond h.2 hlimit'
  | setSoft | flush | close => exact h.elim

/-! ### What a refused write does -/

theorem open_of_refused (h : (w.writeTrusted text).error = some (.heldTextLimit e)) :
    w.closed = false := by
  rw [writeTrusted] at h
  split at h
  · cases h
  · next hopen => simpa using hopen

theorem held_afterRefusal (w : Writer) (text : Text) : (w.afterRefusal text).held = w.held := by
  unfold afterRefusal
  split <;> rfl

theorem writer_of_refused (h : (w.advance text).error = some (.heldTextLimit e)) :
    (w.advance text).writer = (w.afterRefusal text).charged e.usage
      ∧ w.held.usage < e.usage ∧ w.held.limit < e.usage := by
  rcases advance_of_append w text with ⟨e', he, hrefused⟩ | ⟨-, hsent⟩
  · rw [hrefused] at h ⊢
    cases h
    obtain ⟨hcharged, husage, hlimit⟩ := HeldText.append_refused he
    refine ⟨?_, husage, hlimit⟩
    rw [charged, held_afterRefusal, hcharged]
  · rw [hsent] at h
    exact absurd h (error_sendDecided_ne _ e)

/-- Nothing has been decided where something was held back, or where nothing could be. -/
theorem afterRefusal_eq_self_iff :
    w.afterRefusal text = w ↔ w.held.text ≠ []
      ∨ (w.decided.advance false text).context = w.decided
        ∧ (w.decided.advance false text).written = [] := by
  rw [afterRefusal]
  split
  · -- the text has been followed, which may have moved the cursor or written something
    next hempty =>
    have hnone : w.held.text = [] := List.isEmpty_iff.mp hempty
    simp only [hnone, ne_eq, not_true_eq_false, false_or]
    constructor
    · intro heq
      have hunsent : w.unsent ++ (w.decided.advance false text).written = w.unsent :=
        congrArg Writer.unsent heq
      exact ⟨congrArg Writer.decided heq, List.append_right_eq_self.mp hunsent⟩
    · rintro ⟨hdecided, hwritten⟩
      rw [record, hdecided, hwritten, List.append_nil]
  · next hsome => exact iff_of_true rfl (.inl fun hnone => hsome (List.isEmpty_iff.mpr hnone))

/-- **What a refused write does.** Nothing is sent and no more is held back than before, but the
request for memory has been counted, so that more than the limit has been asked for. The writer is
the same but for that if and only if something has been held back before, or no part of the text
could be decided; otherwise that part has been decided, and not been sent. Later calls that manage
with the memory that there is have the same results and send the same as if only that had happened.
The first one that asks for memory is refused. All this is so as long as the count of requests is a
size: the calls have results then if their sizes are checked. -/
theorem refused_write_effect (h : (w.writeTrusted text).error = some (.heldTextLimit e)) :
    let refused := (w.writeTrusted text).writer
    let kept := w.afterRefusal text
    refused = kept.charged e.usage
      ∧ refused.output = w.output ∧ refused.held.text = w.held.text
      ∧ refused.held.usage = e.usage ∧ w.held.usage < e.usage ∧ w.held.limit < e.usage
      ∧ (kept = w ↔ w.held.text ≠ [] ∨ (w.decided.advance false text).context = w.decided
        ∧ (w.decided.advance false text).written = [])
      ∧ ∀ calls, kept.Manages calls →
        refused.errors calls = kept.errors calls
          ∧ refused.performAll calls = (kept.performAll calls).charged e.usage
          ∧ (∀ call, (kept.performAll calls).Asks call →
            ∃ e', ((refused.performAll calls).perform call).error = some (.heldTextLimit e'))
          ∧ ∀ call, w.held.Counted →
            ((refused.performAll calls).perform call).writer.held.usage < USize.size →
            (w.performAll? (.writeTrusted text :: calls)).bind (·.perform? call)
              = some ((refused.performAll calls).perform call) := by
  have hopen := open_of_refused h
  have hchecked (hcounted : w.held.Counted) := perform?_after hcounted (.writeTrusted text)
  rw [perform, writeTrusted_eq hopen] at hchecked
  rw [writeTrusted_eq hopen] at h ⊢
  obtain ⟨hwriter, husage, hlimit⟩ := writer_of_refused h
  have houtput : (w.afterRefusal text).output = w.output := by
    unfold afterRefusal
    split <;> rfl
  have hheld := held_afterRefusal w text
  have htext : (w.afterRefusal text).held.text = w.held.text := by rw [hheld]
  dsimp only
  rw [hwriter] at hchecked ⊢
  refine ⟨rfl, houtput, htext, rfl, husage, hlimit,
    afterRefusal_eq_self_iff, fun calls hmanages => ?_⟩
  obtain ⟨herrors, hperformed⟩ := performAll_charged hmanages e.usage
  refine ⟨herrors, hperformed, fun call hasks => ?_,
    fun call hcounted => hchecked hcounted calls call⟩
  -- the run has not changed the limit, which has been passed by the refused request
  rw [hperformed]
  refine perform_beyond hasks ?_
  rwa [limit_performAll, hheld]

/-- After a tag that is too long has been refused, nothing changes but that a shorter one is refused
too. -/
theorem short_tag_is_refused_later :
    let w := ((new { preallocated := 1, memoryLimit := 2 }
      { failure? := fun _ _ => none }).writeTrusted "<".toList).writer
    let refused := (w.writeTrusted "abc".toList).writer
    let calls := [Call.flush, .setSoft true]
    (w.writeTrusted "abc".toList).error = some (.heldTextLimit ⟨4, 2⟩)
      ∧ refused.held.text = "<".toList ∧ refused.held.usage = 4
      ∧ refused.errors calls = [none, none]
      ∧ ((w.performAll calls).writeTrusted "b".toList).error = none
      ∧ ∃ e, ((refused.performAll calls).writeTrusted "b".toList).error
        = some (.heldTextLimit e) := by
  intro w refused calls
  have h : (w.writeTrusted "abc".toList).error = some (.heldTextLimit ⟨4, 2⟩) := by decide +kernel
  -- neither of the two calls asks for memory
  have hmanages : (w.afterRefusal "abc".toList).Manages calls := ⟨id, id, trivial⟩
  have hasks : ((w.afterRefusal "abc".toList).performAll calls).Asks (.writeTrusted "b".toList) :=
    ⟨by decide +kernel, by unfold AsksFor; decide +kernel⟩
  obtain ⟨-, -, htext, husage, -, -, -, hlater⟩ := refused_write_effect h
  obtain ⟨herrors, -, hrefused, -⟩ := hlater calls hmanages
  exact ⟨h, htext.trans (by decide +kernel), husage, herrors.trans (by decide +kernel),
    by decide +kernel, hrefused _ hasks⟩

/-- **A refused write has effects.** What has been decided of it is not undone, and text that fits
the limit is refused after it. -/
theorem refusal_leaves_traces :
    let w := new { preallocated := 0, memoryLimit := 2 } { failure? := fun _ _ => none }
    let refused := w.writeTrusted "<a href".toList
    let tag := (w.writeTrusted "<".toList).writer
    let refused' := tag.writeTrusted "abc".toList
    Reachable w ∧ w.closed = false
      ∧ refused.error = some (.heldTextLimit ⟨4, 2⟩)
      ∧ w.context.state = .text ∧ refused.writer.context.state = .tag
      ∧ w.unsent = [] ∧ refused.writer.unsent = "<a ".toList
      ∧ Reachable tag ∧ tag.closed = false
      ∧ refused'.error = some (.heldTextLimit ⟨4, 2⟩)
      ∧ (tag.writeTrusted "b".toList).error = none
      ∧ (refused'.writer.writeTrusted "b".toList).error = some (.heldTextLimit ⟨5, 2⟩) :=
  ⟨.new _ _ _, by decide +kernel, by decide +kernel, by decide +kernel, by decide +kernel,
    by decide +kernel, by decide +kernel, .call _ (.new _ _ _) (.writeTrusted _),
    by decide +kernel, by decide +kernel, by decide +kernel, by decide +kernel⟩

end Writer

end SafeMarkup
