import SafeMarkup.Value.Display
import SafeMarkup.Js.Escape

/-!
# Values as JS literals

The form in which a value becomes a part of JS code. The fields of objects are sorted by name, so
the text does not depend on the order in which an object lists them. Values that are nested too
deep are cut off.
-/

namespace SafeMarkup

/-- Values that are nested deeper than this are written as `null`. -/
def literalDepth : Nat := 32

/-- Sorts fields by the code points of their names. Fields with the same name stay in order. -/
def sortFields (fields : List (Text × Text)) : List (Text × Text) :=
  fields.mergeSort fun a b => Text.le a.1 b.1

def fieldLiteral (field : Text × Text) : Text := Js.stringLiteral field.1 ++ [':'] ++ field.2

/-- The literal of a number. A space keeps a minus sign from joining an operator before it. -/
def signedLiteral (negative : Bool) (numeral : Text) : Text :=
  if negative then ' ' :: numeral else numeral

/-- The literal of a value at this depth of nesting, unless that is too deep. -/
def cutOff (depth : Nat) (literal : Text) : Text :=
  if literalDepth < depth then "null".toList else literal

/-- The field that exposes the name of an object's type. -/
def classField (depth : Nat) : Option Text → List (Text × Text)
  | none => []
  | some name => [("class".toList, cutOff depth (Js.stringLiteral name))]

mutual

/-- The literal of a value at this depth of nesting. -/
def Value.literalAt (depth : Nat) (value : Value) : Text :=
  cutOff depth <|
    match value with
    | .null => "null".toList
    | .bool b => Text.ofBool b
    | .int n => signedLiteral (n < 0) (Text.ofInt n)
    | .nat n => Text.ofNat n
    | .float x => signedLiteral (x.isNegative && !x.isNaN) (Layout.page.write x)
    | .char c => Js.stringLiteral [c]
    | .str t => Js.stringLiteral t
    | .list items =>
      ['['] ++ Text.commaSeparated (itemLiteralsAt (depth + 1) items) ++ [']']
    | .object _ fields typeName =>
      let exposed := fieldLiteralsAt (depth + 1) fields ++ classField (depth + 1) typeName
      ['\x7b'] ++ Text.commaSeparated ((sortFields exposed).map fieldLiteral) ++ ['\x7d']

def itemLiteralsAt (depth : Nat) : List Value → List Text
  | [] => []
  | item :: items => item.literalAt depth :: itemLiteralsAt depth items

/-- The names of the fields, and the literals of their values. -/
def fieldLiteralsAt (depth : Nat) : List (Text × Value) → List (Text × Text)
  | [] => []
  | (name, value) :: fields => (name, value.literalAt depth) :: fieldLiteralsAt depth fields

end

def Value.literal (value : Value) : Text := value.literalAt 0

theorem itemLiteralsAt_eq_map (depth : Nat) (items : List Value) :
    itemLiteralsAt depth items = items.map (Value.literalAt depth) := by
  induction items with
  | nil => rfl
  | cons item items ih => rw [itemLiteralsAt, ih, List.map_cons]

theorem fieldLiteralsAt_eq_map (depth : Nat) (fields : List (Text × Value)) :
    fieldLiteralsAt depth fields = fields.map fun field => (field.1, field.2.literalAt depth) := by
  induction fields with
  | nil => rfl
  | cons field fields ih => rw [fieldLiteralsAt, ih, List.map_cons]

end SafeMarkup
