import SafeMarkup.Number.Binary64
import SafeMarkup.Text.Basic

/-!
# Untrusted values

What a template is filled with: scalars, texts, lists, and objects. An object has a text of its own
for use in a page, and exposes chosen fields to JS code.
-/

namespace SafeMarkup

inductive Value where
  | null
  | bool (b : Bool)
  | int (n : Int)
  | nat (n : Nat)
  | float (x : Binary64)
  | char (c : Char)
  | str (t : Text)
  | list (items : List Value)
  /-- An object is shown as `display`. JS code gets the fields, which are exposed together with the
  name of the object's type if it has one. -/
  | object (display : Text) (fields : List (Text × Value)) (typeName : Option Text)
  deriving Inhabited

/-- Does JS code get the value as an array or object? -/
def Value.isStructured : Value → Bool
  | .list _ | .object _ _ _ => true
  | _ => false

end SafeMarkup
