import SafeMarkup.Html.CharRef
import SafeMarkup.Html.CharRef.Search
import SafeMarkup.Text.Bytes

/-!
# References in byte strings

The same question as that of `scan`, asked of bytes: what does an `&` turn out to be? How a
reference is read is guessed from the bytes right after the `&`. Then one run of bytes is its number
or its name, and the byte after the run may close it. Numbers are computed in 32 bits, and names are
looked up by halves.
-/

namespace SafeMarkup.Html.CharRef

/-- The greatest number of 32 bits. -/
def codeBound : Nat := 4294967295

/-- The value of the digits, or the greatest number of 32 bits if the value needs more of them. -/
def saturatingValue (radix : Nat) (digits : Text) : Nat :=
  digits.foldl (fun code d => min (min (code * radix) codeBound + hexDigitValue d) codeBound) 0

/-- Where the run starts and the radix of its digits. The run of a name has the radix zero. -/
def runStart : Text → Nat × Nat
  | '#' :: 'x' :: _ => (2, 16)
  | '#' :: 'X' :: _ => (2, 16)
  | '#' :: _ => (1, 10)
  | _ => (0, 0)

/-- Does the byte belong to the run? -/
def isRunByte (radix : Nat) : Char → Bool :=
  if radix = 16 then isHexDigit else if radix = 10 then Char.isDigit else Char.isAlphanum

/-- Looks at what follows the `&`. Its run starts at position `start`. -/
def matchRun (last : Bool) (start radix : Nat) (body : Text) : Option Scan := do
  let tail ← body.sliceFrom? start
  let length := (tail.takeWhile (isRunByte radix)).length
  let stop := start + length
  if stop = body.length ∧ last = false ∧ (radix ≠ 0 ∨ length < nameBound) then
    return .incomplete
  if length = 0 then
    return .absent
  let run ← body.slice? start stop
  let char? := if radix = 0 then searchName? run else some (ofCodePoint (saturatingValue radix run))
  let closing := if body[stop]? = some ';' then 1 else 0
  match char? with
  | none => return .absent
  | some char =>
    if closing = 0 ∧ radix = 0 ∧ isLegacy char = false then
      return .absent
    return .complete (1 + stop + closing) char

/-- Looks at a byte string that starts with an `&`. If `last`, it is all there is. -/
def matchBytes (input : List UInt8) (last : Bool) : Option Scan := do
  let body ← (Text.ofBytes input).sliceFrom? 1
  let (start, radix) := runStart body
  matchRun last start radix body

example : matchBytes "&#x27;x".toUTF8.toList false = some (.complete 6 '\'') := by decide +kernel

example : matchBytes [] false = none := rfl

end SafeMarkup.Html.CharRef
