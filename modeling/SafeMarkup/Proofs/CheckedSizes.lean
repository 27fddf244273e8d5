import SafeMarkup.Writer.Bytes
import SafeMarkup.Proofs.BytePositions
import SafeMarkup.Proofs.Closing

/-!
# Calls whose sizes are checked

A writer that checks its sizes does what an exact one does, as long as its count of the memory that
has been asked for is a size. Nothing else can go wrong: no other sum is too large, no difference is
one of a smaller size and a larger one, and no text is cut inside a character. So a run has no
result if and only if it makes the count too large (`performAll?_eq`).
-/

namespace SafeMarkup

namespace HeldText

variable {held : HeldText}

/-! ### The count -/

/-- All that a request takes beyond the memory that there is has been counted after it. -/
theorem usage_append (held : HeldText) (more : Text) :
    (held.append more).1.usage
      = held.usage + (Text.utf8Size (held.text ++ more) - held.reserved) := by
  simp only [append]
  split
  · next hfits => exact (Nat.add_eq_left.mpr (Nat.sub_eq_zero_of_le hfits)).symm
  split <;> rfl

theorem usage_le_append (held : HeldText) (more : Text) :
    held.usage ≤ (held.append more).1.usage := by
  rw [usage_append]
  exact Nat.le_add_right _ _

/-- All memory that there is has been counted. -/
def Counted (held : HeldText) : Prop := held.reserved ≤ held.usage

/-- Memory is only given after it has been counted. -/
theorem Counted.append (h : held.Counted) (more : Text) : (held.append more).1.Counted := by
  unfold Counted at h ⊢
  rw [usage_append]
  simp only [HeldText.append]
  split
  · exact Nat.le_add_right_of_le h
  split
  · show Text.utf8Size _ ≤ _
    omega
  · exact Nat.le_add_right_of_le h

/-- **A request has a result if the count after it is a size.** The size of the text is one then,
since it is no larger than the count. -/
theorem append?_eq (h : held.Counted) (hsize : held.usage < USize.size) (more : Text) :
    held.append? more =
      if (held.append more).1.usage < USize.size then some (held.append more) else none := by
  unfold Counted at h
  rw [usage_append, append?, append, Text.utf8Size_append]
  have hsum : Text.sum? held.text.utf8Size more.utf8Size
      = if held.text.utf8Size + more.utf8Size < USize.size
        then some (held.text.utf8Size + more.utf8Size) else none := rfl
  rw [hsum]
  clear hsum
  generalize held.text.utf8Size + more.utf8Size = size
  generalize hcount : held.usage + (size - held.reserved) = count
  -- if the count is a size, so is all that is added up on the way to it
  by_cases hlarge : count < USize.size
  · rw [if_pos hlarge, if_pos (by omega : size < USize.size), Option.bind_eq_bind, Option.bind_some]
    by_cases hfits : size ≤ held.reserved
    · rw [if_neg (Nat.not_lt.mpr hfits), if_pos hfits]
      rfl
    rw [if_pos (Nat.not_le.mp hfits), if_neg hfits, Text.difference?_eq (by omega),
      Option.bind_some, Text.sum?_eq (by omega), hcount, Option.bind_some]
    by_cases hlimit : count ≤ held.limit
    · rw [if_neg (Nat.not_lt.mpr hlimit), if_pos hlimit]
      rfl
    · rw [if_pos (Nat.not_le.mp hlimit), if_neg hlimit]
      rfl
  · -- the count is the first sum that is too large, or the size of the text is
    rw [if_neg hlarge]
    by_cases hfits : size < USize.size
    · rw [if_pos hfits, Option.bind_eq_bind, Option.bind_some, if_pos (by omega),
        Text.difference?_eq (by omega), Option.bind_some, Text.sum?, hcount, if_neg hlarge]
      rfl
    · rw [if_neg hfits]
      rfl

end HeldText

namespace Writer

variable {w : Writer} {text : Text} {call : Call} {calls : List Call}

/-! ### What calls do to the memory -/

/-- Following a text makes one request, after which some of the text is kept. -/
theorem held_advance (w : Writer) (text : Text) :
    ∃ kept, (w.advance text).writer.held = (w.held.append (w.asked text)).1.keep kept := by
  rcases advance_of_append w text with ⟨e, -, hrefused⟩ | ⟨-, hsent⟩
  · exact ⟨_, by rw [hrefused]; rfl⟩
  · exact ⟨_, by rw [hsent]; rfl⟩

/-- Before a value the held text is written or kept, and the count stays. -/
theorem held_ready (w : Writer) : ∃ kept, w.ready.held = w.held.keep kept := by
  have hreference : ∃ kept, w.terminateCharRef.held = w.held.keep kept := by
    unfold terminateCharRef
    split
    · exact ⟨[], rfl⟩
    · exact ⟨w.held.text, rfl⟩
  obtain ⟨kept, hkept⟩ := hreference
  rw [ready, beginValue]
  split
  · refine ⟨[], ?_⟩
    show w.terminateCharRef.held.clear = _
    rw [hkept]
    rfl
  · exact ⟨kept, hkept⟩

/-- **What calls keep of the memory** is what requests keep, and what does not depend on the text
that is held back. -/
theorem held_perform {P : HeldText → Prop} (hkeep : ∀ held text, P held → P (held.keep text))
    (happend : ∀ held more, P held → P (held.append more).1) (h : P w.held) (call : Call) :
    P (w.perform call).writer.held := by
  -- following a text makes one request, of which a part is kept
  have hadvance {w : Writer} (h : P w.held) (text : Text) : P (w.advance text).writer.held := by
    obtain ⟨kept, hheld⟩ := w.held_advance text
    rw [hheld]
    exact hkeep _ kept (happend _ _ h)
  cases call with
  | writeTrusted text =>
    rw [perform, writeTrusted]
    split
    · exact h
    · exact hadvance h text
  | writeValue value =>
    rw [perform, writeValue]
    split
    · exact h
    · obtain ⟨kept, hheld⟩ := w.held_ready
      have hready : P w.ready.held := hheld ▸ hkeep _ kept h
      exact hadvance hready _
  | setSoft soft => exact h
  | flush =>
    rw [perform, flush]
    split <;> exact h
  | close =>
    exact close_keeps (P := fun v => P v.held) (fun _ => h) (fun _ => hkeep _ [] h)
      (fun _ hv => hv) (fun _ hv => hv)

theorem held_performAll {P : HeldText → Prop} (hkeep : ∀ held text, P held → P (held.keep text))
    (happend : ∀ held more, P held → P (held.append more).1) (h : P w.held) (calls : List Call) :
    P (w.performAll calls).held := by
  induction calls generalizing w with
  | nil => exact h
  | cons call calls ih => exact ih (held_perform hkeep happend h call)

/-- The memory that there is stays counted. -/
theorem counted_perform (h : w.held.Counted) (call : Call) :
    (w.perform call).writer.held.Counted :=
  held_perform (fun _ _ h => h) (fun _ more h => h.append more) h call

/-- The count never goes down. -/
theorem usage_le_perform (w : Writer) (call : Call) :
    w.held.usage ≤ (w.perform call).writer.held.usage :=
  held_perform (P := fun held => w.held.usage ≤ held.usage) (fun _ _ h => h)
    (fun held more h => Nat.le_trans h (held.usage_le_append more)) (Nat.le_refl _) call

theorem usage_le_performAll (w : Writer) (calls : List Call) :
    w.held.usage ≤ (w.performAll calls).held.usage :=
  held_performAll (P := fun held => w.held.usage ≤ held.usage) (fun _ _ h => h)
    (fun held more h => Nat.le_trans h (held.usage_le_append more)) (Nat.le_refl _) calls

/-! ### Calls that are checked -/

/-- The outcome of a call if the count is a size after it. -/
def Outcome.counted? (o : Outcome) : Option Outcome :=
  if o.writer.held.usage < USize.size then some o else none

/-- Makes a call that checks its sizes. -/
def perform? (w : Writer) : Call → Option Outcome
  | .writeTrusted text => w.writeTrusted? text
  | .writeValue value => w.writeValue? value
  | .setSoft soft => some { writer := w.setSoft soft }
  | .flush => some w.flush
  | .close => some w.close

/-- Makes one call after the other, whether they fail or not, as long as they have results. -/
def performAll? (w : Writer) : List Call → Option Writer
  | [] => some w
  | call :: calls => do
    let o ← w.perform? call
    o.writer.performAll? calls

/-- Of a text that has been followed, the undecided bytes are held back. -/
theorem last?_held (ctx : Context) (text : Text) :
    text.last? (ctx.advance false text).held.utf8Size = some (ctx.advance false text).held := by
  obtain ⟨decided, hsplit⟩ := ctx.held_suffix false text
  generalize (ctx.advance false text).held = held at *
  rw [← hsplit, Text.last?_append]

/-- **Following a text** only makes the count too large: no difference is taken that does not exist,
and no character is cut. -/
theorem advance?_eq (h : w.held.Counted) (hsize : w.held.usage < USize.size) (text : Text) :
    w.advance? text = (w.advance text).counted? := by
  rw [advance?, advance]
  by_cases hempty : w.held.isEmpty = true
  · rw [if_pos hempty, if_pos hempty, Context.Bytes.advance_eq]
    have hlast := last?_held w.decided text
    generalize w.decided.advance false text = p at *
    dsimp only [Option.bind_eq_bind, Option.bind_some, Context.Bytes.Position.ofProgress]
    rw [show (w.record p.context p.written).held = w.held from rfl]
    by_cases hnone : p.held = []
    · rw [hnone]
      exact (if_pos hsize).symm
    · have hpos : p.held.utf8Size ≠ 0 := Nat.ne_of_gt (Text.utf8Size_pos hnone)
      rw [if_neg hpos, if_neg (by simpa using hnone), hlast, Option.bind_some,
        HeldText.append?_eq h hsize]
      generalize w.held.append p.held = appended
      obtain ⟨held, failed⟩ := appended
      by_cases hcount : held.usage < USize.size
      · rw [if_pos hcount]
        cases failed <;> exact (if_pos hcount).symm
      · rw [if_neg hcount]
        cases failed <;> exact (if_neg hcount).symm
  · rw [if_neg hempty, if_neg hempty, HeldText.append?_eq h hsize]
    generalize w.held.append text = appended
    obtain ⟨held, failed⟩ := appended
    by_cases hcount : held.usage < USize.size
    · rw [if_pos hcount]
      cases failed with
      | none =>
        -- the text is all in memory, and is cut where the undecided bytes start
        dsimp only [Option.bind_eq_bind, Option.bind_some]
        rw [Context.Bytes.advance_eq, Option.bind_some, HeldText.shrinkToLast?]
        dsimp only [Context.Bytes.Position.ofProgress]
        rw [last?_held]
        exact (if_pos hcount).symm
      | some e => exact (if_pos hcount).symm
    · rw [if_neg hcount]
      cases failed <;> exact (if_neg hcount).symm

/-- **A call has a result if the count after it is a size.** -/
theorem perform?_eq (h : w.held.Counted) (hsize : w.held.usage < USize.size) (call : Call) :
    w.perform? call = (w.perform call).counted? := by
  -- calls that make no request leave the count as it is
  have hsame {o : Outcome} (hheld : o.writer.held.usage = w.held.usage) :
      some o = o.counted? := by
    rw [Outcome.counted?, hheld, if_pos hsize]
  cases call with
  | writeTrusted text =>
    rw [perform?, perform, writeTrusted?, writeTrusted]
    split
    · exact hsame rfl
    · exact advance?_eq h hsize text
  | writeValue value =>
    rw [perform?, perform, writeValue?, writeValue]
    split
    · exact hsame rfl
    · obtain ⟨kept, hheld⟩ := w.held_ready
      have hready : w.ready.held.Counted := hheld ▸ h
      have husage : w.ready.held.usage < USize.size := hheld ▸ hsize
      exact advance?_eq hready husage _
  | setSoft soft => exact hsame rfl
  | flush =>
    refine hsame ?_
    rw [flush]
    split <;> rfl
  | close =>
    exact hsame (close_keeps (P := fun v => v.held.usage = w.held.usage) (fun _ => rfl)
      (fun _ => rfl) (fun _ hv => hv) (fun _ hv => hv))

/-- **A run has a result if and only if the count at its end is a size**, and then it is that of a
writer that does not check its sizes. -/
theorem performAll?_eq (h : w.held.Counted) (hsize : w.held.usage < USize.size)
    (calls : List Call) :
    w.performAll? calls =
      if (w.performAll calls).held.usage < USize.size then some (w.performAll calls) else none := by
  induction calls generalizing w with
  | nil => exact (if_pos hsize).symm
  | cons call calls ih =>
    have hmore := (w.perform call).writer.usage_le_performAll calls
    have hrun : w.performAll (call :: calls) = (w.perform call).writer.performAll calls := rfl
    rw [performAll?, perform?_eq h hsize, Outcome.counted?, hrun]
    by_cases hcount : (w.perform call).writer.held.usage < USize.size
    · rw [if_pos hcount]
      exact ih (counted_perform h call) hcount
    · rw [if_neg hcount, if_neg (by omega)]
      rfl

/-- After a call and a run, a further call has a result if the count after it is a size. -/
theorem perform?_after (h : w.held.Counted) (first : Call) (calls : List Call) (call : Call)
    (hsize : (((w.perform first).writer.performAll calls).perform call).writer.held.usage
      < USize.size) :
    (w.performAll? (first :: calls)).bind (·.perform? call)
      = some (((w.perform first).writer.performAll calls).perform call) := by
  have hrun : w.performAll (first :: calls) = (w.perform first).writer.performAll calls := rfl
  have hstart := w.usage_le_performAll (first :: calls)
  have hlast := usage_le_perform (w.performAll (first :: calls)) call
  have hcounted : (w.performAll (first :: calls)).held.Counted :=
    held_performAll (fun _ _ h => h) (fun _ more h => h.append more) h _
  rw [hrun] at hstart hlast hcounted
  rw [performAll?_eq h (by omega), hrun, if_pos (by omega), Option.bind_some,
    perform?_eq hcounted (by omega)]
  exact if_pos hsize

end Writer

end SafeMarkup
