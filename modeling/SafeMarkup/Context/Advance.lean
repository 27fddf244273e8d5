import SafeMarkup.Context.Step

/-!
# Following a text through the grammar

`advance` takes one step after the other until the text is used up, or until a step needs to see
more. What is left undecided is held back; it has to be passed again, with more text after it.
Nothing is held back of a `last` text.
-/

namespace SafeMarkup

/-- How far a text has been followed. -/
structure Progress where
  /-- The context after the decided part. -/
  context : Context
  /-- What goes out for the decided part. -/
  written : Text
  held : Text
  deriving DecidableEq, Repr

/-- The same progress with something written before it. -/
def Progress.after (written : Text) (p : Progress) : Progress :=
  { p with written := written ++ p.written }

namespace Context

/-- Follows a text whose first `skip` characters have been decided on already. -/
def advanceFrom (last : Bool) : (skip : Nat) → (ctx : Context) → Text → Progress
  | _, ctx, [] => ⟨ctx, [], []⟩
  | skip + 1, ctx, _ :: rest => advanceFrom last skip ctx rest
  | 0, ctx, c :: rest =>
    match ctx.step last c rest with
    | .consumed next written used => (advanceFrom last (used - 1) next rest).after written
    | .blocked next => ⟨next, [], c :: rest⟩

/-- Follows a text. If `last`, nothing will come after it. -/
def advance (ctx : Context) (last : Bool) (text : Text) : Progress :=
  advanceFrom last 0 ctx text

@[simp] theorem advance_nil (ctx : Context) (last : Bool) :
    ctx.advance last [] = ⟨ctx, [], []⟩ := rfl

/-- Skipping is dropping. -/
theorem advanceFrom_eq_advance_drop (last : Bool) (skip : Nat) (ctx : Context) (text : Text) :
    advanceFrom last skip ctx text = ctx.advance last (text.drop skip) := by
  induction text generalizing skip with
  | nil => simp [advance, advanceFrom]
  | cons c rest ih =>
    cases skip with
    | zero => simp [advance]
    | succ skip => simpa [advanceFrom] using ih skip

/-- One step, and on from there. -/
theorem advance_cons (ctx : Context) (last : Bool) (c : Char) (rest : Text) :
    ctx.advance last (c :: rest) =
      match ctx.step last c rest with
      | .consumed next written used =>
        (next.advance last (rest.drop (used - 1))).after written
      | .blocked next => ⟨next, [], c :: rest⟩ := by
  rw [advance, advanceFrom]
  split <;> simp [advanceFrom_eq_advance_drop]

/-! ### Around untrusted values -/

/-- The context in which the document would be if `held` were all that is left of it. This is the
context that an untrusted value after `held` is escaped for. -/
def peek (ctx : Context) (held : Text) : Context := (ctx.advance true held).context

/-- Follows text that has been held back in an attribute value, right before an untrusted value. The
value must not become a part of the reference that the text may start. So a complete reference gets
a closing `;` if it lacks one, and an `&` that starts none becomes a reference itself. -/
def terminateCharRef (ctx : Context) (held : Text) : Context × Text :=
  match held with
  | '&' :: rest =>
    if ctx.inAttrValue then
      match Html.CharRef.scan true rest with
      | .complete length char =>
        let reference := held.take length
        let closing := if reference.getLast? = some ';' then [] else [';']
        let p := (ctx.feed char).advance true (held.drop length)
        (p.context, reference ++ closing ++ p.written)
      | _ =>
        let p := (ctx.feed '&').advance true rest
        (p.context, "&amp;".toList ++ p.written)
    else
      let p := ctx.advance true held
      (p.context, p.written)
  | _ =>
    let p := ctx.advance true held
    (p.context, p.written)

/-- Puts an unquoted value that starts here in quotes, so that an untrusted value at its start
cannot spill over into the rest of the tag. -/
def beginValue (ctx : Context) : Context × Text :=
  if ctx.state = .beforeValue then (ctx.attrValue .autoQuote, ['"']) else (ctx, [])

/-- Completes the document: closes the quotes of a value that has been put in quotes. -/
def finish (ctx : Context) : Context × Text :=
  if ctx.delim = some .autoQuote then (ctx.inTag, ['"']) else (ctx, [])

@[simp] theorem peek_nil (ctx : Context) : ctx.peek [] = ctx := rfl

example : (advance {} false "<a hr".toList) = ⟨{ state := .tag }, "<a ".toList, "hr".toList⟩ := by
  decide

example : (advance {} true "<a href=x".toList).context.urlPart = .scheme := by decide

end Context

end SafeMarkup
