import SafeMarkup.Value.Basic
import SafeMarkup.Number.Layout
import SafeMarkup.Text.Quoted

/-!
# Descriptions of values

The form in which a value is shown to a programmer: its kind, and its content in parentheses.
-/

namespace SafeMarkup

/-- In descriptions a float is recognized by its point or exponent. -/
def Layout.description : Layout where
  nan := "NaN".toList
  infinity := "inf".toList
  pointZero := true
  positional := some (-4, 16)

/-- A kind of values, and the content of one of them. -/
def describeAs (kind : String) (content : Text) : Text := kind.toList ++ ['('] ++ content ++ [')']

mutual

def Value.describe : Value → Text
  | .null => "Null".toList
  | .bool b => describeAs "Bool" (if b then "true".toList else "false".toList)
  | .int n => describeAs "Int" (Text.ofInt n)
  | .nat n => describeAs "UInt" (Text.ofNat n)
  | .float x => describeAs "Float" (Layout.description.write x)
  | .char c => describeAs "Char" (Text.quotedSingle c)
  | .str t => describeAs "Str" (Text.quoted t)
  | .list items =>
    describeAs "List" (['['] ++ [',', ' '].intercalate (describeItems items) ++ [']'])
  | .object display _ _ => describeAs "Object" (Text.quoted display)

def describeItems : List Value → List Text
  | [] => []
  | item :: items => item.describe :: describeItems items

end

end SafeMarkup
