import SafeMarkup.Js.Token
import SafeMarkup.Js.Unescape
import SafeMarkup.Value.Literal

/-!
# Reading JS literals

The literals that values are written as: `null`, truth values, numbers, strings in single quotes,
lists, and objects with strings as names. A space may stand before a number. Everything but strings
and brackets goes up to the next comma or closing bracket, and is settled as a whole.

Reading gives the names and the strings themselves, and of a number its numeral: what number a
numeral stands for does not matter here.
-/

namespace SafeMarkup.Js

/-! ### Literals -/

/-- Is the text digits, or digits with a point among them? -/
def isDecimal (t : Text) : Bool :=
  match t.takeWhile Char.isDigit, t.dropWhile Char.isDigit with
  | [], _ => false
  | _ :: _, [] => true
  | _ :: _, c :: fraction => c == '.' && !fraction.isEmpty && fraction.all Char.isDigit

def isMagnitude (t : Text) : Bool := t == "Infinity".toList || isDecimal t

/-- Is the text a number? NaN has no sign. -/
def isNumber (t : Text) : Bool :=
  match t with
  | '-' :: magnitude => isMagnitude magnitude
  | _ => t == "NaN".toList || isMagnitude t

/-- The text of a number. -/
structure Numeral where
  text : Text
  valid : isNumber text = true
  deriving DecidableEq

def Numeral.isNegative (n : Numeral) : Bool := n.text.head? == some '-'

inductive Literal where
  | null
  | bool (b : Bool)
  | number (numeral : Numeral)
  | string (t : Text)
  | list (items : List Literal)
  | object (fields : List (Text × Literal))

/-- What holds of a list or object if it holds of its parts holds of every literal. -/
@[elab_as_elim]
theorem Literal.inductionOn {P : Literal → Prop} (l : Literal) (null : P .null)
    (bool : ∀ b, P (.bool b)) (number : ∀ n, P (.number n)) (string : ∀ t, P (.string t))
    (list : ∀ items, (∀ item ∈ items, P item) → P (.list items))
    (object : ∀ fields, (∀ field ∈ fields, P field.2) → P (.object fields)) : P l :=
  @Literal.rec P (fun items => ∀ item ∈ items, P item)
    (fun fields => ∀ field ∈ fields, P field.2) (fun field => P field.2)
    null bool number string list object
    (by simp) (fun _ _ hitem hitems => List.forall_mem_cons.mpr ⟨hitem, hitems⟩)
    (by simp) (fun _ _ hfield hfields => List.forall_mem_cons.mpr ⟨hfield, hfields⟩)
    (fun _ _ hvalue => hvalue) l

mutual

/-- The literal as it is written. A number with a minus sign has a space before it. -/
def Literal.write : Literal → Text
  | .null => "null".toList
  | .bool b => Text.ofBool b
  | .number n => signedLiteral n.isNegative n.text
  | .string t => stringLiteral t
  | .list items => ['['] ++ Text.commaSeparated (writeItems items) ++ [']']
  | .object fields =>
    ['\x7b'] ++ Text.commaSeparated ((writeFields fields).map fieldLiteral) ++ ['\x7d']

def writeItems : List Literal → List Text
  | [] => []
  | item :: items => item.write :: writeItems items

/-- The names of the fields, and what their values are written as. -/
def writeFields : List (Text × Literal) → List (Text × Text)
  | [] => []
  | (name, value) :: fields => (name, value.write) :: writeFields fields

end

def writeField (field : Text × Literal) : Text := fieldLiteral (field.1, field.2.write)

theorem writeItems_eq (items : List Literal) : writeItems items = items.map Literal.write := by
  induction items with
  | nil => rfl
  | cons item items ih => rw [writeItems, ih, List.map_cons]

theorem writeFields_eq (fields : List (Text × Literal)) :
    writeFields fields = fields.map fun field => (field.1, field.2.write) := by
  induction fields with
  | nil => rfl
  | cons field fields ih => rw [writeFields, ih, List.map_cons]

theorem write_list (items : List Literal) :
    (Literal.list items).write
      = ['['] ++ Text.commaSeparated (items.map Literal.write) ++ [']'] := by
  rw [Literal.write, writeItems_eq]

theorem write_object (fields : List (Text × Literal)) :
    (Literal.object fields).write
      = ['\x7b'] ++ Text.commaSeparated (fields.map writeField) ++ ['\x7d'] := by
  rw [Literal.write, writeFields_eq, List.map_map]
  rfl

/-! ### Strings -/

/-- Splits a text after the first quote that no backslash escapes. No string goes on after the end
of a line. -/
def splitString : (escaped : Bool) → Text → Option (Text × Text)
  | _, [] => none
  | true, c :: rest => (splitString false rest).map fun s => (c :: s.1, s.2)
  | false, c :: rest =>
    if c = '\'' then some ([], rest)
    else if isLineEnd c then none
    else (splitString (c == '\\') rest).map fun s => (c :: s.1, s.2)

/-- Reads a string, and gives what is left after it. -/
def readString : Text → Option (Text × Text)
  | '\'' :: rest => (splitString false rest).map fun s => (unescape s.1, s.2)
  | _ => none

mutual

/-- The text without the strings in it. -/
def outsideStrings : Text → Text
  | [] => []
  | c :: rest => if c = '\'' then afterString false rest else c :: outsideStrings rest

/-- The same for a text that starts in a string. -/
def afterString : (escaped : Bool) → Text → Text
  | _, [] => []
  | true, _ :: rest => afterString false rest
  | false, c :: rest =>
    if c = '\'' then outsideStrings rest else afterString (c == '\\') rest

end

/-! ### What has neither quotes nor brackets -/

/-- Does `c` end what has neither quotes nor brackets? -/
def endsAtom (c : Char) : Bool := c == ',' || c == ']' || c == '\x7d'

def readNumber (t : Text) : Option Literal :=
  if h : isNumber t = true then some (.number ⟨t, h⟩) else none

def atom? : Text → Option Literal
  | ' ' :: t => readNumber t
  | t =>
    if t = "null".toList then some .null
    else if t = "true".toList then some (.bool true)
    else if t = "false".toList then some (.bool false)
    else readNumber t

def readAtom (t : Text) : Option (Literal × Text) :=
  (atom? (t.takeWhile (!endsAtom ·))).map (·, t.dropWhile (!endsAtom ·))

/-! ### Lists and objects -/

section

variable {α : Type} (read : Text → Option (α × Text)) (close : Char)

/-- Reads what stands between commas, up to `close`. Not more than `bound` of it is read. -/
def readSeparated : (bound : Nat) → Text → Option (List α × Text)
  | 0, _ => none
  | bound + 1, t => do
    let (first, rest) ← read t
    match rest with
    | [] => none
    | c :: rest =>
      if c = close then return ([first], rest)
      else if c = ',' then
        let (others, rest) ← readSeparated bound rest
        return (first :: others, rest)
      else none

/-- Reads what stands after an opening bracket, up to `close`. -/
def readBrackets : Text → Option (List α × Text)
  | [] => none
  | c :: rest =>
    if c = close then some ([], rest) else readSeparated read close (rest.length + 1) (c :: rest)

/-- Reads a name with a value after it. -/
def readField (t : Text) : Option ((Text × α) × Text) := do
  let (name, rest) ← readString t
  match rest with
  | ':' :: rest =>
    let (value, rest) ← read rest
    return ((name, value), rest)
  | _ => none

end

/-- Reads a literal with at most `depth` brackets around any part of it, and gives what is left
after it. -/
def readLiteral : (depth : Nat) → Text → Option (Literal × Text)
  | 0, _ => none
  | depth + 1, t =>
    match t with
    | '\'' :: _ => (readString t).map fun s => (.string s.1, s.2)
    | '[' :: rest =>
      (readBrackets (readLiteral depth) ']' rest).map fun s => (.list s.1, s.2)
    | '\x7b' :: rest =>
      (readBrackets (readField (readLiteral depth)) '\x7d' rest).map fun s => (.object s.1, s.2)
    | _ => readAtom t

/-- The literal that the whole text is. -/
def Literal.parse (t : Text) : Option Literal :=
  match readLiteral t.length t with
  | some (literal, []) => some literal
  | _ => none

example : (Literal.parse "\x7b'a':[ -1.5,'it\\x27s'],'b':\x7b\x7d\x7d".toList).map Literal.write =
    some "\x7b'a':[ -1.5,'it\\x27s'],'b':\x7b\x7d\x7d".toList := by
  decide +kernel

end SafeMarkup.Js
