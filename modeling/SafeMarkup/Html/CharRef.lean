import SafeMarkup.Html.CharRef.Names

/-!
# Character references

An `&` may start a reference to a character, by number (`&#39;`, `&#x27;`) or by name (`&lt;`).
A number refers to the character with exactly that code point, however many digits it has. Names
that HTML inherited from its early days are references without a `;` too.

`scan` looks at the text after an `&`. The text may be continued later; then a reference that runs
up to its end is not decided yet.
-/

namespace SafeMarkup.Html.CharRef

/-- What an `&` turns out to be. -/
inductive Scan where
  /-- A reference to `char`, made up of `length` characters with the `&` and a closing `;`. -/
  | complete (length : Nat) (char : Char)
  | incomplete
  /-- The `&` stands for itself. -/
  | absent
  deriving DecidableEq, Repr

/-- The character with this code point; U+FFFD for zero and for numbers that are no code point of a
character. -/
def ofCodePoint (code : Nat) : Char :=
  if code ≠ 0 ∧ code.isValidChar then Char.ofNat code else '\ufffd'

def value (radix : Nat) (digits : Text) : Nat :=
  digits.foldl (fun n d => n * radix + hexDigitValue d) 0

/-- The characters that may be referred to by name without a closing `;`. -/
def isLegacy (c : Char) : Bool :=
  ('\u00a0' ≤ c && c ≤ '\u00ff') || c == '&' || c == '<' || c == '>' || c == '"'

/-- The length of the closing `;`, if there is one. -/
def semicolon : Text → Nat
  | ';' :: _ => 1
  | _ => 0

/-- Looks at a numeric reference. `opening` is the length of what precedes the digits. -/
def scanNumber (last : Bool) (radix opening : Nat) (isDigit : Char → Bool) (rest : Text) : Scan :=
  let digits := rest.takeWhile isDigit
  let after := rest.dropWhile isDigit
  if after.isEmpty && !last then .incomplete
  else if digits.isEmpty then .absent
  else
    .complete (opening + digits.length + semicolon after) (ofCodePoint (value radix digits))

/-- Looks at a named reference. -/
def scanName (last : Bool) (rest : Text) : Scan :=
  let name := rest.takeWhile Char.isAlphanum
  let after := rest.dropWhile Char.isAlphanum
  if after.isEmpty && !last && name.length < nameBound then .incomplete
  else
    match lookup? name with
    | none => .absent
    | some c =>
      if semicolon after = 0 && !isLegacy c then .absent
      else .complete (1 + name.length + semicolon after) c

/-- Looks at the text after an `&`. If `last`, that text is all there is. -/
def scan (last : Bool) : Text → Scan
  | '#' :: 'x' :: rest => scanNumber last 16 3 isHexDigit rest
  | '#' :: 'X' :: rest => scanNumber last 16 3 isHexDigit rest
  | '#' :: rest => scanNumber last 10 2 Char.isDigit rest
  | rest => scanName last rest

/-- Does an `&` before `rest` start a reference? -/
def startsRef (rest : Text) : Bool :=
  match scan true rest with
  | .complete _ _ => true
  | _ => false

/-- Nothing stays undecided at the end of the text. -/
theorem scanNumber_last (radix opening : Nat) (isDigit : Char → Bool) (rest : Text) :
    scanNumber true radix opening isDigit rest ≠ .incomplete := by
  simp only [scanNumber]
  split
  · simp_all
  · split <;> simp

theorem scanName_last (rest : Text) : scanName true rest ≠ .incomplete := by
  simp only [scanName]
  split
  · simp_all
  · split
    · simp
    · split <;> simp

theorem scan_last (rest : Text) : scan true rest ≠ .incomplete := by
  unfold scan
  split
  · exact scanNumber_last _ _ _ _
  · exact scanNumber_last _ _ _ _
  · exact scanNumber_last _ _ _ _
  · exact scanName_last _

example : scan false "#39;x".toList = .complete 5 '\'' := by decide
example : scan true "amp".toList = .complete 4 '&' := by decide
example : scan false "amp".toList = .incomplete := by decide

end SafeMarkup.Html.CharRef
