import SafeMarkup.Writer.Basic
import SafeMarkup.Proofs.Peek

/-!
# Reachable writers

What a call does to a writer is said once, by one lemma for each of the writer's operations
(`advances`, `prepares`, `close_keeps`). A writer is reachable if calls lead to it from a new one,
whether they succeed or not. Of a reachable writer the decided context is well-formed, and what is
held back is undecided there (`Reachable.valid`).
-/

namespace SafeMarkup

namespace Context

variable {ctx : Context}

/-! ### Around untrusted values -/

/-- **A reference that is completed is read as if it had been the end of the text.** -/
theorem terminateCharRef_context (ctx : Context) (held : Text) :
    (ctx.terminateCharRef held).1 = ctx.peek held := by
  unfold terminateCharRef
  split
  · next rest =>
    split
    · next hin =>
      have hstep : ctx.step true '&' rest = ctx.stepValueChar true '&' rest := step_amp hin
      simp only [stepValueChar, ↓reduceIte] at hstep
      cases hscan : Html.CharRef.scan true rest with
      | complete length char =>
        rw [hscan] at hstep
        -- a complete reference takes all that is held back
        obtain ⟨n, rfl⟩ := Nat.exists_eq_succ_of_ne_zero
          (Nat.ne_of_gt (Html.CharRef.scan_length hscan).1)
        rw [peek, advance_consumed hstep]
        rfl
      | incomplete => exact absurd hscan (Html.CharRef.scan_last rest)
      | absent =>
        rw [hscan] at hstep
        rw [peek, advance_consumed hstep]
        rfl
    · rfl
  · rfl

/-- Quotes that are opened for a value keep the context well-formed. -/
theorem WellFormed.beginValue (h : ctx.WellFormed) : ctx.beginValue.1.WellFormed := by
  unfold Context.beginValue
  split
  · next hs =>
    obtain ⟨kind, heq⟩ := h.of_attr (by rw [hs]; rfl)
    exact wellFormed_attrValue (by rw [heq]) .autoQuote
  · exact h

/-- A value has started after this. -/
theorem state_beginValue (ctx : Context) : ctx.beginValue.1.state ≠ .beforeValue := by
  unfold Context.beginValue
  split
  · intro h
    have hs := isContent_attrValue ctx .autoQuote
    rw [h] at hs
    cases hs
  · assumption

theorem WellFormed.finish (h : ctx.WellFormed) : ctx.finish.1.WellFormed := by
  unfold Context.finish
  split
  · exact .tag _
  · exact h

end Context

namespace Writer

variable {w : Writer} {text : Text}

/-! ### What the operations do -/

/-- What can come of following a text: all of it has been followed, or there was no memory for what
had to be held back. In that case text that nothing was held back before has been decided on
nevertheless. -/
inductive Advances (w : Writer) (text : Text) : Outcome → Prop where
  | sent (p : Progress) (hp : w.decided.advance false (w.held.text ++ text) = p) (held : HeldText)
      (hheld : held.text = p.held) :
      Advances w text (sendDecided { w.record p.context p.written with held })
  | lost (p : Progress) (hp : w.decided.advance false text = p) (held : HeldText)
      (hnone : w.held.text = []) (hheld : held.text = []) (e : LimitExceeded) :
      Advances w text
        { writer := { w.record p.context p.written with held }, error := some (.heldTextLimit e) }
  | refused (held : HeldText) (hheld : held.text = w.held.text) (e : LimitExceeded) :
      Advances w text { writer := { w with held }, error := some (.heldTextLimit e) }

/-- Text that is to be held back is added, or refused and dropped. -/
theorem text_append (held : HeldText) (more : Text) :
    ((held.append more).2 = none ∧ (held.append more).1.text = held.text ++ more)
      ∨ ((∃ e, (held.append more).2 = some e) ∧ (held.append more).1.text = held.text) := by
  simp only [HeldText.append]
  split
  · exact Or.inl ⟨rfl, rfl⟩
  split
  · exact Or.inl ⟨rfl, rfl⟩
  · exact Or.inr ⟨⟨_, rfl⟩, rfl⟩

/-- **What following a text does to a writer.** -/
theorem advances (w : Writer) (text : Text) : Advances w text (w.advance text) := by
  unfold Writer.advance
  split
  · next hempty =>
    have hnone : w.held.text = [] := List.isEmpty_iff.mp hempty
    generalize hp : w.decided.advance false text = p
    -- the text is followed before it is known whether there is memory for what is held back
    have hp' : w.decided.advance false (w.held.text ++ text) = p := by rw [hnone]; exact hp
    dsimp only
    by_cases hheld : p.held.isEmpty = true
    · rw [if_pos hheld]
      exact .sent p hp' w.held (by rw [hnone, List.isEmpty_iff.mp hheld])
    · rw [if_neg hheld]
      have happend := text_append w.held p.held
      rw [show (w.record p.context p.written).held = w.held from rfl]
      generalize w.held.append p.held = appended at happend ⊢
      obtain ⟨held, refused⟩ := appended
      rcases happend with ⟨rfl, ht⟩ | ⟨⟨e, rfl⟩, ht⟩
      · exact .sent p hp' held (ht.trans (by rw [hnone]; rfl))
      · exact .lost p hp held hnone (ht.trans hnone) e
  · have happend := text_append w.held text
    dsimp only
    generalize w.held.append text = appended at happend ⊢
    obtain ⟨held, refused⟩ := appended
    rcases happend with ⟨rfl, ht⟩ | ⟨⟨e, rfl⟩, ht⟩
    · exact .sent _ (by rw [← ht]) _ rfl
    · exact .refused held ht e

/-- With memory for what has to be held back, a writer has followed the text. Whether the sink fails
does not matter for that. -/
theorem followed_of_advance (h : ∀ e, (w.advance text).error ≠ some (.heldTextLimit e)) :
    (w.advance text).writer.decided = (w.decided.advance false (w.held.text ++ text)).context
      ∧ (w.advance text).writer.held.text
        = (w.decided.advance false (w.held.text ++ text)).held := by
  generalize ho : w.advance text = outcome at h
  cases ho ▸ advances w text with
  | sent p hp held hheld =>
    subst hp
    exact ⟨rfl, hheld⟩
  | lost _ _ _ _ _ e => exact absurd rfl (h e)
  | refused _ _ e => exact absurd rfl (h e)

theorem closed_advance (w : Writer) (text : Text) : (w.advance text).writer.closed = w.closed := by
  generalize ho : w.advance text = outcome
  cases ho ▸ advances w text <;> rfl

/-- A text that is not refused is followed together with what is held back. -/
theorem context_advance (h : ∀ e, (w.advance text).error ≠ some (.heldTextLimit e)) :
    (w.advance text).writer.context = w.decided.peek (w.held.text ++ text) := by
  obtain ⟨hdecided, hheld⟩ := followed_of_advance h
  have happend := w.decided.peek_append (w.held.text ++ text) []
  rw [List.append_nil, List.append_nil] at happend
  rw [context, hdecided, hheld, happend]

/-- Where text is sent there has been memory for what is held back. -/
theorem error_sendDecided_ne (w : Writer) (e : LimitExceeded) :
    (sendDecided w).error ≠ some (.heldTextLimit e) := by
  intro h
  obtain ⟨_, -, he⟩ := Option.map_eq_some_iff.mp h
  cases he

/-- Text that there is no memory for is lost, and what has been held back before stays. -/
theorem kept_of_refused {e : LimitExceeded} (hheld : w.held.text ≠ [])
    (h : (w.advance text).error = some (.heldTextLimit e)) :
    (w.advance text).writer.decided = w.decided
      ∧ (w.advance text).writer.held.text = w.held.text := by
  generalize ho : w.advance text = outcome at h
  cases ho ▸ advances w text with
  | sent => exact absurd h (error_sendDecided_ne _ e)
  | lost _ _ _ hnone => exact absurd hnone hheld
  | refused held htext => exact ⟨rfl, htext⟩

/-- The writer, and what it holds back, fit the grammar. -/
structure Valid (w : Writer) : Prop where
  wellFormed : w.decided.WellFormed
  held : w.held.text = [] ∨ w.decided.Undecided w.held.text

theorem Valid.wellFormed_context (h : Valid w) : w.context.WellFormed :=
  h.wellFormed.advance true w.held.text

/-- The writer right before an untrusted value is escaped. -/
def ready (w : Writer) : Writer := w.terminateCharRef.beginValue

theorem writeTrusted_eq (hopen : w.closed = false) (text : Text) :
    w.writeTrusted text = w.advance text := by
  rw [writeTrusted, if_neg (by simp [hopen])]

theorem writeValue_eq (hopen : w.closed = false) (value : Value) :
    w.writeValue value = w.ready.advance (w.ready.escapeValue value) := by
  rw [writeValue, if_neg (by simp [hopen])]
  rfl

/-- How a writer is made ready for an untrusted value. -/
inductive Prepares (w : Writer) : Writer → Prop where
  | asIs (hs : w.context.state ≠ .beforeValue)
      (hheld : w.held.text = [] ∨ w.decided.inAttrValue = false) : Prepares w w
  | quoted (hs : w.decided.state = .beforeValue) (hheld : w.held.text = []) :
      Prepares w { w.record (w.decided.attrValue .autoQuote) ['"'] with held := w.held.clear }
  | reference (hd : w.decided.inAttrValue = true) (hheld : w.decided.Undecided w.held.text) :
      Prepares w { w.record (w.decided.terminateCharRef w.held.text).1
          (w.decided.terminateCharRef w.held.text).2 with held := w.held.clear }

theorem Valid.peeks (h : Valid w) : w.context = w.decided ∨ w.decided.Peeks w.context := by
  rcases h.held with hheld | hheld
  · exact Or.inl (by rw [context, hheld, Context.peek_nil])
  · exact Or.inr (hheld.peek h.wellFormed)

theorem Valid.delim_eq (h : Valid w) : w.context.delim = w.decided.delim := by
  rcases h.peeks with heq | hpeeks
  · rw [heq]
  · exact hpeeks.delim

/-- Where a value could start nothing is held back. -/
theorem Valid.held_eq_nil (h : Valid w) (hs : w.context.state = .beforeValue) :
    w.held.text = [] := by
  rcases h.held with hheld | hheld
  · exact hheld
  · exact absurd hs ((hheld.peek h.wellFormed).state_ne h.wellFormed)

/-- Only references in values have to be completed. -/
theorem terminateCharRef_eq_self (h : w.held.text = [] ∨ w.decided.inAttrValue = false) :
    w.terminateCharRef = w := by
  have hnot : ¬(w.decided.inAttrValue && !w.held.isEmpty) = true := by
    rcases h with hnone | hin
    · simp [HeldText.isEmpty, hnone]
    · simp [hin]
  rw [terminateCharRef, if_neg hnot]

/-- What is held back in a value is a reference, and is completed. -/
theorem terminateCharRef_eq (hd : w.decided.inAttrValue = true)
    (hheld : w.decided.Undecided w.held.text) :
    w.terminateCharRef = { w.record (w.decided.terminateCharRef w.held.text).1
      (w.decided.terminateCharRef w.held.text).2 with held := w.held.clear } := by
  have hne : (!w.held.isEmpty) = true := by simpa [HeldText.isEmpty] using hheld.ne_nil
  rw [terminateCharRef, if_pos (by rw [hd, hne]; rfl)]

/-- A completed reference does not end where a value could start. -/
theorem Valid.state_terminateCharRef (h : Valid w) (hd : w.decided.inAttrValue = true)
    (hheld : w.decided.Undecided w.held.text) :
    w.terminateCharRef.context.state ≠ .beforeValue := by
  rw [terminateCharRef_eq hd hheld]
  change ((w.decided.terminateCharRef w.held.text).1.peek []).state ≠ _
  rw [Context.peek_nil, Context.terminateCharRef_context]
  exact (hheld.peek h.wellFormed).state_ne h.wellFormed

/-- **What is done before a value is escaped.** -/
theorem prepares (h : Valid w) : Prepares w w.ready := by
  rw [ready]
  by_cases hin : w.decided.inAttrValue = true ∧ w.decided.Undecided w.held.text
  · rw [beginValue, if_neg (h.state_terminateCharRef hin.1 hin.2), terminateCharRef_eq hin.1 hin.2]
    exact .reference hin.1 hin.2
  · have hnone : w.held.text = [] ∨ w.decided.inAttrValue = false := by
      rcases h.held with hnone | hheld
      · exact Or.inl hnone
      · exact Or.inr (by simpa [hheld] using hin)
    -- nothing to complete: only quotes can be missing
    rw [terminateCharRef_eq_self hnone, beginValue]
    split
    · next hs =>
      have hnone := h.held_eq_nil hs
      have hdecided : w.decided.state = .beforeValue := by
        rwa [context, hnone, Context.peek_nil] at hs
      have hquoted := Prepares.quoted hdecided hnone
      simpa [resolveHeld, hnone, record, Context.beginValue, hdecided] using hquoted
    · next hs => exact .asIs hs hnone

/-- In text, names and content nothing is done before a value is escaped. -/
theorem Valid.ready_eq_self (h : Valid w) (hd : w.decided.delim = none)
    (hs : w.decided.state ≠ .beforeValue) : w.ready = w := by
  generalize hw' : w.ready = w'
  cases hw' ▸ prepares h with
  | asIs => rfl
  | quoted hs' => exact absurd hs' hs
  | reference hd' => rw [Context.inAttrValue, hd] at hd'; cases hd'

/-- Nothing is held back right before a value in an attribute, so that the value is escaped for the
context that has been decided. -/
theorem decided_of_prepares {w' : Writer} (h : Valid w) (hp : Prepares w w')
    (hheld : w.held.text = [] ∨ w.decided.inAttrValue = true) :
    w'.decided = w.context.beginValue.1 ∧ w'.held.text = [] := by
  cases hp with
  | asIs hs hheld' =>
    -- a value may only come right after something undecided in the value of an attribute
    have hnone : w.held.text = [] := by
      rcases hheld with hheld | hd
      · exact hheld
      · rcases hheld' with hheld' | hd'
        · exact hheld'
        · rw [hd] at hd'; cases hd'
    rw [Context.beginValue, if_neg hs, context, hnone]
    exact ⟨rfl, rfl⟩
  | quoted hs hnone =>
    rw [Context.beginValue, context, hnone, Context.peek_nil, if_pos hs]
    exact ⟨rfl, rfl⟩
  | reference hd hheld' =>
    have hs := (hheld'.peek h.wellFormed).state_ne h.wellFormed
    rw [Context.beginValue, context, if_neg hs]
    exact ⟨Context.terminateCharRef_context _ _, rfl⟩

/-- What does not depend on what has been written. -/
def options (w : Writer) : Serializer × Bool × List Url.Scheme × Bool × Charset × Nat :=
  (w.serializer, w.soft, w.schemes, w.closed, w.output.charset, w.held.limit)

theorem options_of_prepares {w' : Writer} (hp : Prepares w w') : w'.options = w.options := by
  cases hp <;> rfl

/-- No value closes a writer. -/
theorem closed_writeValue (h : Valid w) (hopen : w.closed = false) (value : Value) :
    (w.writeValue value).writer.closed = false := by
  have hready : w.ready.closed = w.closed :=
    congrArg (·.2.2.2.1) (options_of_prepares (prepares h))
  rw [writeValue_eq hopen, closed_advance, hready, hopen]

/-! ### Calls -/

/-- A call to a writer. The other calls are made up of these. -/
inductive Call where
  | writeTrusted (text : Text)
  | writeValue (value : Value)
  | setSoft (soft : Bool)
  | flush
  | close

/-- Makes a call. -/
def perform (w : Writer) : Call → Outcome
  | .writeTrusted text => w.writeTrusted text
  | .writeValue value => w.writeValue value
  | .setSoft soft => { writer := w.setSoft soft }
  | .flush => w.flush
  | .close => w.close

/-! ### The end of the document -/

/-- What is written at the end of a document for held back text. -/
def completion (w : Writer) : Text :=
  (w.decided.advance true w.held.text).written
    ++ (w.decided.advance true w.held.text).context.finish.2

/-- The writer at the end of its document, before the rest is sent. -/
def completed (w : Writer) : Writer :=
  ({ w with closed := true }.resolveHeld).record (w.context.finish.1) (w.context.finish.2)

theorem unsent_completed (w : Writer) : w.completed.unsent = w.unsent ++ w.completion :=
  List.append_assoc _ _ _

/-- Closing an open writer sends the end of the document, and then flushes and closes the sink. -/
theorem close_eq (hopen : w.closed = false) :
    w.close
      = (w.completed.sendDecided.andThen (callSink · .flush)).andThen (callSink · .close) := by
  rw [close, if_neg (by simp [hopen])]
  rfl

/-- **What closing keeps.** If a writer is open, it sends the end of its document first. The calls
to the sink that follow are made one after the other, up to the first that fails. -/
theorem close_keeps {P : Writer → Prop} (hclosed : w.closed = true → P w)
    (hsent : w.closed = false → P w.completed.sendDecided.writer)
    (hflush : ∀ v : Writer, P v → P (v.callSink .flush).writer)
    (hclose : ∀ v : Writer, P v → P (v.callSink .close).writer) : P w.close.writer := by
  have hthen {o : Outcome} {call : Writer → Outcome} (hcall : ∀ v, P v → P (call v).writer)
      (ho : P o.writer) : P (o.andThen call).writer := by
    unfold Outcome.andThen
    split
    · exact ho
    · exact hcall _ ho
  cases hopen : w.closed with
  | true =>
    rw [close, if_pos hopen]
    exact hclosed hopen
  | false =>
    rw [close_eq hopen]
    exact hthen hclose (hthen hflush (hsent hopen))

theorem closed_close (w : Writer) : w.close.writer.closed = true :=
  close_keeps (P := fun v => v.closed = true) id (fun _ => rfl) (fun _ h => h) (fun _ h => h)

/-- The writers that calls lead to from a new one, whether the calls succeed or not. -/
inductive Reachable : Writer → Prop where
  | new (settings : Settings) (sink : Sink) (serializer : Serializer) :
      Reachable (.new settings sink serializer)
  | call (w : Writer) (h : Reachable w) (call : Call) : Reachable (w.perform call).writer

/-- A writer that has been given some trusted text to start with, whose sink takes every call. -/
def startingWith (text : Text) : Writer :=
  ((new {} { failure? := fun _ _ => none }).writeTrusted text).writer

theorem reachable_startingWith (text : Text) : Reachable (startingWith text) :=
  .call _ (.new _ _ _) (.writeTrusted text)

/-! ### The invariant -/

/-- Following a text keeps the invariant, whatever comes of it. -/
theorem Valid.of_advances {outcome : Outcome} (h : Valid w) (ha : Advances w text outcome) :
    Valid outcome.writer := by
  -- held back text is undecided after it has been followed; after a refusal it is what it was
  cases ha with
  | sent p hp held hheld =>
    subst hp
    refine ⟨h.wellFormed.advance _ _, ?_⟩
    change held.text = [] ∨ Context.Undecided _ held.text
    rw [hheld]
    rcases Context.held_of_advance w.decided false (w.held.text ++ text) with hnone | ⟨-, hu⟩
    · exact Or.inl hnone
    · exact Or.inr hu
  | lost p hp held hnone hheld =>
    subst hp
    exact ⟨h.wellFormed.advance _ _, Or.inl hheld⟩
  | refused held hheld =>
    refine ⟨h.wellFormed, ?_⟩
    change held.text = [] ∨ Context.Undecided _ held.text
    rw [hheld]
    exact h.held

theorem Valid.of_prepares {w' : Writer} (h : Valid w) (hp : Prepares w w') : Valid w' := by
  cases hp with
  | asIs => exact h
  | quoted hs =>
    obtain ⟨kind, heq⟩ := h.wellFormed.of_attr (by rw [hs]; rfl)
    exact ⟨Context.wellFormed_attrValue (by rw [heq]) .autoQuote, Or.inl rfl⟩
  | reference =>
    refine ⟨?_, Or.inl rfl⟩
    change (w.decided.terminateCharRef w.held.text).1.WellFormed
    rw [Context.terminateCharRef_context]
    exact h.wellFormed.advance true _

theorem Valid.close (h : Valid w) : Valid w.close.writer := by
  have hresolved : (w.decided.advance true w.held.text).context.finish.1.WellFormed :=
    (h.wellFormed.advance true _).finish
  -- a call to the sink changes neither the context nor the held back text
  have hkept (call : SinkCall) (v : Writer) (hv : Valid v) : Valid (v.callSink call).writer :=
    ⟨hv.wellFormed, hv.held⟩
  exact close_keeps (fun _ => h) (fun _ => ⟨hresolved, Or.inl rfl⟩) (hkept .flush) (hkept .close)

/-- Every call keeps a writer valid, whether it succeeds or not. -/
theorem Valid.perform (h : Valid w) (call : Call) : Valid (w.perform call).writer := by
  -- a closed writer is left as it is by every call
  cases call with
  | writeTrusted text =>
    simp only [Writer.perform, writeTrusted]
    split
    · exact h
    · exact h.of_advances (advances w text)
  | writeValue value =>
    simp only [Writer.perform, writeValue]
    split
    · exact h
    · exact (h.of_prepares (prepares h)).of_advances (advances _ _)
  | setSoft soft => exact ⟨h.wellFormed, h.held⟩
  | flush =>
    simp only [Writer.perform, flush]
    split
    · exact h
    · exact ⟨h.wellFormed, h.held⟩
  | close => exact h.close

/-- **Reachable writers fit the grammar.** -/
theorem Reachable.valid (h : Reachable w) : Valid w := by
  induction h with
  | new => exact ⟨.text .text rfl, Or.inl rfl⟩
  | call w _ call ih => exact ih.perform call

end Writer

end SafeMarkup
