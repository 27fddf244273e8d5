import SafeMarkup.Proofs.Reachable

/-!
# Contexts that can be reached

A context is reachable if operations lead to it from the start of a document: following texts of any
kind, opening and closing quotes, completing references. The contexts of a reachable writer are
among them (`Writer.Reachable.decided`), so that what holds of all reachable contexts holds wherever
a value can be written. What single decisions preserve holds of all of them
(`Preserved.of_reachable`).
-/

namespace SafeMarkup

namespace Context

/-- The contexts that operations lead to from the start of a document. -/
inductive Reachable : Context → Prop where
  | start : Reachable {}
  | advance (ctx : Context) (h : Reachable ctx) (last : Bool) (text : Text) :
      Reachable (ctx.advance last text).context
  | terminateCharRef (ctx : Context) (h : Reachable ctx) (text : Text) :
      Reachable (ctx.terminateCharRef text).1
  | beginValue (ctx : Context) (h : Reachable ctx) : Reachable ctx.beginValue.1
  | finish (ctx : Context) (h : Reachable ctx) : Reachable ctx.finish.1

variable {ctx : Context}

theorem Reachable.peek (h : ctx.Reachable) (held : Text) : (ctx.peek held).Reachable :=
  .advance ctx h true held

/-- Only well-formed contexts can be reached. -/
theorem Reachable.wellFormed (h : ctx.Reachable) : ctx.WellFormed := by
  induction h with
  | start => exact .text .text rfl
  | advance ctx _ last text ih => exact ih.advance last text
  | terminateCharRef ctx _ text ih =>
    rw [terminateCharRef_context]
    exact ih.advance true text
  | beginValue ctx _ ih => exact ih.beginValue
  | finish ctx _ ih => exact ih.finish

/-! ### What decisions preserve -/

/-- `P` holds at the start, and no decision leads out of it. -/
structure Preserved (P : Context → Prop) : Prop where
  start : P {}
  next : ∀ {ctx next c}, ctx.WellFormed → P ctx → ctx.Next c next → P next
  clearer : ∀ {ctx next}, ctx.WellFormed → P ctx → ctx.Clearer next → P next
  quoted : ∀ {ctx}, ctx.WellFormed → P ctx → ctx.state = .beforeValue →
    P (ctx.attrValue .autoQuote)
  closed : ∀ {ctx}, ctx.WellFormed → P ctx → P ctx.inTag

variable {P : Context → Prop}

/-- A text keeps what every step preserves. -/
theorem Preserved.advance (hp : Preserved P) (hw : ctx.WellFormed) (h : P ctx) (last : Bool)
    (t : Text) : P (ctx.advance last t).context := by
  induction ctx, t using advance_induction last with
  | nil => exact h
  | consumed ctx c rest next w u hstep ih =>
    have hnext := next_of_step hstep
    rw [advance_consumed hstep]
    exact ih (hw.of_next hnext) (hp.next hw h hnext)
  | blocked ctx c rest next hstep =>
    rw [advance_blocked hstep]
    exact hp.clearer hw h (blocked_of_step hstep).2.1

/-- **What every decision preserves holds of all reachable contexts.** -/
theorem Preserved.of_reachable (hp : Preserved P) (h : ctx.Reachable) : P ctx := by
  induction h with
  | start => exact hp.start
  | advance ctx h last text ih => exact hp.advance h.wellFormed ih last text
  | terminateCharRef ctx h text ih =>
    -- completing a reference leads where the end of the text would
    rw [terminateCharRef_context]
    exact hp.advance h.wellFormed ih true text
  | beginValue ctx h ih =>
    unfold Context.beginValue
    split
    · next hs => exact hp.quoted h.wellFormed ih hs
    · exact ih
  | finish ctx h ih =>
    unfold Context.finish
    split
    · exact hp.closed h.wellFormed ih
    · exact ih

/-- What is said of some states of a language only is preserved if it holds where a value starts,
and if reading characters preserves it. The content of no element may start in such a state. -/
theorem Preserved.of_feed {states : State → Prop} {Q : Context → Prop}
    (hcontent : ∀ {state}, states state → state.isContent = true)
    (helement : ∀ element, ¬ states (elementContent element).state)
    (hvalue : ∀ {ctx : Context} {delim}, states (ctx.attrValue delim).state →
      Q (ctx.attrValue delim))
    (hfeed : ∀ {ctx : Context} {c}, ctx.WellFormed → (states ctx.state → Q ctx) →
      states (ctx.feed c).state → Q (ctx.feed c)) :
    Preserved fun ctx => states ctx.state → Q ctx where
  start := fun hs => by cases hcontent hs
  next {ctx next c} hw hctx hnext hs := by
    -- steps that lead to content enter it or read a character of it; all others lead elsewhere
    cases hnext with
    | inValue _ _ _ d | inContent _ _ d => exact hfeed hw hctx hs
    | unquotedStart _ hstate d =>
      obtain ⟨kind, heq⟩ := hw.of_attr (by rw [hstate]; rfl)
      exact hfeed (wellFormed_attrValue (by rw [heq]) .spaceOrTagEnd) hvalue hs
    | valueStart => exact hvalue hs
    | valueEnd _ _ _ _ hnext =>
      rcases hnext with rfl | rfl
      · cases hcontent hs
      · exact absurd hs (helement _)
    | tagClose => exact absurd hs (helement _)
    | inText | inTagName | inTag | inAttrName | beforeValue | inComment => exact hctx hs
    | markup _ _ _ _ hstate => rcases hstate with rfl | rfl | rfl <;> cases hcontent hs
    | tagNameEnd _ _ _ hnext => rcases hnext with rfl | rfl <;> cases hcontent hs
    | attr _ _ _ state hstate | nextAttr _ _ _ state hstate =>
      have hin : state.isContent = true := hcontent hs
      have hout : state.isContent = false := by cases state <;> first | rfl | cases hstate
      rw [hin] at hout
      cases hout
    | afterName _ _ _ hstate => rcases hstate with rfl | rfl <;> cases hcontent hs
    | tagStart | noValue | commentEnd | contentEnd => cases hcontent hs
  clearer {ctx next} hw hctx hclearer hs := by
    cases hclearer with
    | same => exact hctx hs
    | tag => cases hcontent hs
    | value => exact hvalue hs
  quoted _ _ _ hs := hvalue hs
  closed _ _ hs := by cases hcontent hs

end Context

namespace Writer

variable {w : Writer} {text : Text}

/-! ### The contexts of writers -/

/-- A call with a text leads to contexts that can be reached. -/
theorem reachable_of_advances {outcome : Outcome} (h : w.decided.Reachable)
    (ha : Advances w text outcome) : outcome.writer.decided.Reachable := by
  cases ha with
  | sent p hp =>
    subst hp
    exact .advance _ h false _
  | lost p hp =>
    subst hp
    exact .advance _ h false _
  | refused => exact h

theorem reachable_of_prepares {w' : Writer} (h : w.decided.Reachable) (hp : Prepares w w') :
    w'.decided.Reachable := by
  cases hp with
  | asIs => exact h
  | quoted hs =>
    have hbegun := Context.Reachable.beginValue _ h
    rwa [Context.beginValue, if_pos hs] at hbegun
  | reference => exact .terminateCharRef _ h _

theorem reachable_close (h : w.decided.Reachable) : w.close.writer.decided.Reachable := by
  -- what is sent to the sink does not change the context
  refine close_keeps (P := fun v => v.decided.Reachable) (fun _ => h) (fun _ => ?_)
    (fun _ hv => hv) (fun _ hv => hv)
  exact .finish _ (h.peek _)

/-- **The context of a reachable writer is reachable.** -/
theorem Reachable.decided (h : Reachable w) : w.decided.Reachable := by
  induction h with
  | new => exact .start
  | call w hw call ih =>
    -- only texts and values move the cursor, and closing does
    cases call with
    | writeTrusted text =>
      simp only [perform, writeTrusted]
      split
      · exact ih
      · exact reachable_of_advances ih (advances w text)
    | writeValue value =>
      simp only [perform, writeValue]
      split
      · exact ih
      · exact reachable_of_advances (reachable_of_prepares ih (prepares hw.valid)) (advances _ _)
    | setSoft soft => exact ih
    | flush =>
      simp only [perform, flush]
      split <;> exact ih
    | close => exact reachable_close ih

theorem Reachable.context (h : Reachable w) : w.context.Reachable := h.decided.peek w.held.text

end Writer

end SafeMarkup
