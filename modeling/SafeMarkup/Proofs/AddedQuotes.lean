import SafeMarkup.Proofs.Runs

/-!
# Quotes that are added

Around a value that an untrusted value starts, quotes are added that are not in the template. In the
output they look like all other quotes. Here the output is told in pieces, so that added quotes can
be told from the rest, and it is shown that they come in pairs.
-/

namespace SafeMarkup

/-- A piece of the output: a quote that has been added around a value, or other text. -/
inductive Piece where
  | other (t : Text)
  | opening
  | closing

/-- The text that goes out for a piece. -/
def Piece.text : Piece → Text
  | .other t => t
  | .opening | .closing => ['"']

/-- Added quotes come in pairs: after an opening quote the next added quote is a closing one, and
there is no other closing quote. The two flags say whether such a pair is open before and after the
pieces. -/
inductive Paired : Bool → List Piece → Bool → Prop where
  | nil (inside : Bool) : Paired inside [] inside
  | other {before after : Bool} {pieces : List Piece} (t : Text) (h : Paired before pieces after) :
      Paired before (.other t :: pieces) after
  | opening {after : Bool} {pieces : List Piece} (h : Paired true pieces after) :
      Paired false (.opening :: pieces) after
  | closing {after : Bool} {pieces : List Piece} (h : Paired false pieces after) :
      Paired true (.closing :: pieces) after

/-- Pieces that are paired one after the other are paired together. -/
theorem Paired.append {a b c : Bool} {pieces more : List Piece} (h : Paired a pieces b)
    (h' : Paired b more c) : Paired a (pieces ++ more) c := by
  induction h with
  | nil => exact h'
  | other t _ ih => exact .other t (ih h')
  | opening _ ih => exact .opening (ih h')
  | closing _ ih => exact .closing (ih h')

namespace Context

variable {ctx next : Context} {last : Bool} {c : Char} {rest t : Text}

/-- Is the cursor in a value around which quotes have been added? -/
def isQuoted (ctx : Context) : Bool := ctx.delim == some .autoQuote

theorem isQuoted_iff : ctx.isQuoted = true ↔ ctx.delim = some .autoQuote := beq_iff_eq

theorem isQuoted_eq_false (h : ctx.delim ≠ some .autoQuote) : ctx.isQuoted = false :=
  beq_false_of_ne h

/-! ### Following a text -/

/-- What a step at `c` writes. Only where the value ends that the quotes have been added around, the
closing quote comes before `c`. -/
def stepPieces (ctx : Context) (c : Char) (written : Text) : List Piece :=
  if ctx.delim = some .autoQuote ∧ Delim.autoQuote.endsAt c = true then [.closing, .other [c]]
  else [.other written]

/-- What is written for a text whose first `skip` characters have been decided on already. -/
def piecesFrom (last : Bool) : (skip : Nat) → (ctx : Context) → Text → List Piece
  | _, _, [] => []
  | skip + 1, ctx, _ :: rest => piecesFrom last skip ctx rest
  | 0, ctx, c :: rest =>
    match ctx.step last c rest with
    | .consumed next written used =>
      ctx.stepPieces c written ++ piecesFrom last (used - 1) next rest
    | .blocked _ => []

/-- What is written for a text, in pieces. -/
def pieces (ctx : Context) (last : Bool) (t : Text) : List Piece := piecesFrom last 0 ctx t

/-- What is skipped gives no pieces. -/
theorem piecesFrom_eq_pieces_drop (skip : Nat) (ctx : Context) (t : Text) :
    piecesFrom last skip ctx t = ctx.pieces last (t.drop skip) := by
  induction t generalizing skip with
  | nil => cases skip <;> rfl
  | cons c rest ih =>
    cases skip with
    | zero => rfl
    | succ skip => exact ih skip

theorem pieces_consumed {w : Text} {u : Nat} (h : ctx.step last c rest = .consumed next w u) :
    ctx.pieces last (c :: rest) = ctx.stepPieces c w ++ next.pieces last (rest.drop (u - 1)) := by
  rw [pieces, piecesFrom, h]
  exact congrArg _ (piecesFrom_eq_pieces_drop _ _ _)

theorem pieces_blocked (h : ctx.step last c rest = .blocked next) :
    ctx.pieces last (c :: rest) = [] := by
  rw [pieces, piecesFrom, h]

/-- Where the value ends the quotes are closed. -/
theorem step_valueEnd (hd : ctx.delim = some .autoQuote) (hc : Delim.autoQuote.endsAt c = true)
    (last : Bool) (rest : Text) :
    ∃ next, ctx.step last c rest = .consumed next ['"', c] 1 ∧ next.delim = none := by
  by_cases hclose : c = '>'
  · subst hclose
    exact ⟨ctx.closeTag, by simp [step, hd, stepValue], rfl⟩
  · have hspace : isHtmlSpace c = true := by simpa [Delim.endsAt, hclose] using hc
    exact ⟨ctx.inTag, by simp [step, hd, stepValue, hclose, hspace], rfl⟩

/-- The pieces of a step are the text it writes. -/
theorem text_stepPieces {w : Text} {u : Nat} (h : ctx.step last c rest = .consumed next w u) :
    (ctx.stepPieces c w).flatMap Piece.text = w := by
  rw [stepPieces]
  split
  · next hend =>
    obtain ⟨next', hstep, -⟩ := step_valueEnd hend.1 hend.2 last rest
    rw [h] at hstep
    cases hstep
    rfl
  · exact List.append_nil w

/-- **The pieces make up what is written.** -/
theorem text_pieces (ctx : Context) (last : Bool) (t : Text) :
    (ctx.pieces last t).flatMap Piece.text = (ctx.advance last t).written := by
  induction ctx, t using advance_induction last with
  | nil => rfl
  | consumed ctx c rest next w u hstep ih =>
    rw [pieces_consumed hstep, List.flatMap_append, text_stepPieces hstep, ih,
      advance_consumed hstep, after_written]
  | blocked ctx c rest next hstep =>
    rw [pieces_blocked hstep, advance_blocked hstep]
    rfl

/-- A step opens and closes quotes where the value begins and ends. -/
theorem paired_stepPieces {w : Text} {u : Nat} (h : ctx.step last c rest = .consumed next w u) :
    Paired ctx.isQuoted (ctx.stepPieces c w) next.isQuoted := by
  rw [stepPieces]
  split
  · next hend =>
    obtain ⟨next', hstep, hnone⟩ := step_valueEnd hend.1 hend.2 last rest
    rw [h] at hstep
    cases hstep
    rw [isQuoted_iff.mpr hend.1, isQuoted_eq_false (delim_ne_of_eq_none hnone)]
    exact .closing (.other _ (.nil _))
  · next hend =>
    have hnext := next_of_step h
    -- the value goes on, or there was none in quotes and none has been opened
    have hsame : next.isQuoted = ctx.isQuoted := by
      by_cases hd : ctx.delim = some .autoQuote
      · have hnext' : next.delim = ctx.delim := by
          cases hnext <;> simp_all [(samePlace_feed ctx _).delim]
        rw [isQuoted, hnext', isQuoted]
      · rw [isQuoted_eq_false hd, isQuoted_eq_false (hnext.delim_ne hd)]
    rw [hsame]
    exact .other _ (.nil _)

/-- **Quotes that are open when a text comes are closed with the value**, and no others are. -/
theorem paired_pieces (ctx : Context) (last : Bool) (t : Text) :
    Paired ctx.isQuoted (ctx.pieces last t) (ctx.advance last t).context.isQuoted := by
  induction ctx, t using advance_induction last with
  | nil => exact .nil _
  | consumed ctx c rest next w u hstep ih =>
    rw [pieces_consumed hstep, advance_consumed hstep]
    exact (paired_stepPieces hstep).append ih
  | blocked ctx c rest next hstep =>
    -- a blocked step may begin a value, but never one in added quotes
    have hsame : next.isQuoted = ctx.isQuoted := by
      cases (blocked_of_step hstep).2.1 with
      | same => rfl
      | tag hd | value hd => exact (isQuoted_eq_false (delim_ne_of_eq_none hd)).symm
    rw [pieces_blocked hstep, advance_blocked hstep, hsame]
    exact .nil _

/-- What is written at the end of a document, in pieces. -/
def finishPieces (ctx : Context) : List Piece :=
  if ctx.delim = some .autoQuote then [.closing] else []

theorem text_finishPieces (ctx : Context) :
    ctx.finishPieces.flatMap Piece.text = ctx.finish.2 := by
  unfold finishPieces finish
  split <;> rfl

/-- At the end of a document no quotes are left open. -/
theorem paired_finishPieces (ctx : Context) : Paired ctx.isQuoted ctx.finishPieces false := by
  unfold finishPieces
  split
  · next hd =>
    rw [isQuoted_iff.mpr hd]
    exact .closing (.nil _)
  · next hd =>
    rw [isQuoted_eq_false hd]
    exact .nil _

/-- Closing leaves no added quote open. -/
theorem delim_finish (ctx : Context) : ctx.finish.1.delim ≠ some .autoQuote := by
  unfold finish
  split
  · exact delim_ne_of_eq_none rfl
  · assumption

end Context

/-! ### Calls -/

namespace Writer

/-- What is written to complete a reference before an untrusted value. -/
def completedPieces (w : Writer) : List Piece :=
  if w.decided.inAttrValue && !w.held.isEmpty then
    [.other (w.decided.terminateCharRef w.held.text).2]
  else []

/-- What is written where an untrusted value starts a value. -/
def begunPieces (w : Writer) : List Piece :=
  if w.context.state = .beforeValue then
    w.decided.pieces true w.held.text
      ++ if w.resolveHeld.decided.state = .beforeValue then [.opening] else []
  else []

/-- What is written before an untrusted value. -/
def readyPieces (w : Writer) : List Piece := w.completedPieces ++ w.terminateCharRef.begunPieces

/-- What is written in a call. -/
def pieces (w : Writer) : Call → List Piece
  | .writeTrusted text => w.decided.pieces false (w.held.text ++ text)
  | .writeValue value =>
    w.readyPieces ++ w.ready.decided.pieces false (w.ready.held.text ++ w.ready.escapeValue value)
  | .setSoft _ | .flush => []
  | .close =>
    w.decided.pieces true w.held.text ++ (w.decided.peek w.held.text).finishPieces

/-- What is written in a run in which no call fails. -/
def runPieces (w : Writer) : List Call → List Piece
  | [] => []
  | call :: calls => w.pieces call ++ (w.perform call).writer.runPieces calls

/-- The pieces of a run are those of its calls in turn. -/
theorem runPieces_append {w : Writer} {calls : List Call} (hok : (w.run calls).error = none)
    (more : List Call) :
    w.runPieces (calls ++ more) = w.runPieces calls ++ (w.run calls).writer.runPieces more := by
  induction calls generalizing w with
  | nil => rfl
  | cons call calls ih =>
    rw [run] at hok ⊢
    obtain ⟨hfirst, hrest⟩ := Outcome.error_andThen.mp hok
    rw [List.cons_append, runPieces, runPieces, ih hrest, Outcome.andThen_ok hfirst,
      List.append_assoc]

/-- The last pieces are what completes the document. -/
theorem text_pieces_close (w : Writer) : (w.pieces .close).flatMap Piece.text = w.completion := by
  rw [pieces, List.flatMap_append, Context.text_pieces, Context.text_finishPieces]
  rfl

end Writer

end SafeMarkup
