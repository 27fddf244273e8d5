import SafeMarkup.Writer.Basic
import SafeMarkup.Context.Bytes

/-!
# Writers that count bytes

Of a text that has been followed it is known how many bytes at its end are undecided. Here a writer
cuts its texts by these numbers, and keeps the account of its memory by sizes. Each sum of sizes has
to be a size, each difference has to exist, and each cut has to fall between two characters; a call
that does not find them has no result.
-/

namespace SafeMarkup

namespace HeldText

/-- Adds text at the end, if there is memory for it. -/
def append? (held : HeldText) (more : Text) : Option (HeldText × Option LimitExceeded) := do
  let size ← Text.sum? held.text.utf8Size more.utf8Size
  if held.reserved < size then
    let increase ← Text.difference? size held.reserved
    let usage ← Text.sum? held.usage increase
    if held.limit < usage then return ({ held with usage }, some ⟨usage, held.limit⟩)
    else return ({ held with text := held.text ++ more, reserved := size, usage }, none)
  else return ({ held with text := held.text ++ more }, none)

/-- Keeps the last bytes of the text only. -/
def shrinkToLast? (held : HeldText) (size : Nat) : Option HeldText :=
  (held.text.last? size).map held.keep

end HeldText

namespace Writer

/-- Follows text through the grammar, together with the text that is held back, and sends what has
been decided. -/
def advance? (w : Writer) (text : Text) : Option Outcome :=
  if w.held.isEmpty then do
    let p ← Context.Bytes.advance w.decided false text
    let w := w.record p.context p.written
    if p.undecided = 0 then return w.sendDecided
    else
      let rest ← text.last? p.undecided
      match ← w.held.append? rest with
      | (held, some e) => return { writer := { w with held }, error := some (.heldTextLimit e) }
      | (held, none) => return sendDecided { w with held }
  else do
    match ← w.held.append? text with
    | (held, some e) => return { writer := { w with held }, error := some (.heldTextLimit e) }
    | (held, none) =>
      let p ← Context.Bytes.advance w.decided false held.text
      let held ← held.shrinkToLast? p.undecided
      return sendDecided { w.record p.context p.written with held }

def writeTrusted? (w : Writer) (text : Text) : Option Outcome :=
  if w.closed then some { writer := w, error := some .closed } else w.advance? text

def writeValue? (w : Writer) (value : Value) : Option Outcome :=
  if w.closed then some { writer := w, error := some .closed }
  else
    let w := w.terminateCharRef.beginValue
    w.advance? (w.escapeValue value)

end Writer

end SafeMarkup
