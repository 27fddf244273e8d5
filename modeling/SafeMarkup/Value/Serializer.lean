import SafeMarkup.Value.Literal

/-!
# Serializers

A writer turns values into text before it escapes them. How it does so can be chosen.
-/

namespace SafeMarkup

/-- A way to turn values into text. -/
structure Serializer where
  /-- The text of a value as it is shown on a page. -/
  display : Value → Text
  /-- The text of a value as an expression in JS code. It is written to the code as it is, so it
  must not end the element or attribute around the code. -/
  literal : Value → Text

/-- The serializer that is used unless another is asked for. -/
def Serializer.default : Serializer where
  display := Value.display
  literal := Value.literal

end SafeMarkup
