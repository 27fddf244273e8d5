import SafeMarkup.Value.Basic
import SafeMarkup.Number.Layout

/-!
# Values as text

The form in which a value is shown to the reader of a page, before it is escaped.
-/

namespace SafeMarkup

/-- Numbers on a page have no exponent, and integers have no decimal point. -/
def Layout.page : Layout where
  nan := "NaN".toList
  infinity := "Infinity".toList
  pointZero := false
  positional := none

def Text.ofBool (b : Bool) : Text := if b then "true".toList else "false".toList

/-- The texts with a comma between every two of them. -/
def Text.commaSeparated (items : List Text) : Text := [','].intercalate items

mutual

/-- The text of a value. Null is shown as nothing, and lists as their items. -/
def Value.display : Value → Text
  | .null => []
  | .bool b => Text.ofBool b
  | .int n => Text.ofInt n
  | .nat n => Text.ofNat n
  | .float x => Layout.page.write x
  | .char c => [c]
  | .str t => t
  | .list items => Text.commaSeparated (displayItems items)
  | .object display _ _ => display

def displayItems : List Value → List Text
  | [] => []
  | item :: items => item.display :: displayItems items

end

example : Value.display (.list [.str "a".toList, .null, .int (-3)]) = "a,,-3".toList := by decide

end SafeMarkup
