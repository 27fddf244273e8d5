import SafeMarkup.Writer.Basic
import SafeMarkup.Context.Describe

/-!
# Descriptions of writers

The form in which a writer is shown to a programmer.
-/

namespace SafeMarkup

/-- The description of a writer. It shows the context after the decided text. -/
def Writer.describe (w : Writer) : Text :=
  describeRecord "EscapingWriter" [
    ("context", w.decided.describe),
    ("pending", Text.quoted w.held.text),
    ("soft", Text.ofBool w.soft),
    ("closed", Text.ofBool w.closed)]

end SafeMarkup
