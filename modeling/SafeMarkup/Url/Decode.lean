import SafeMarkup.Text.Basic

/-!
# Reading percent forms

The reader of a URL takes a `%` with two hexadecimal digits after it for the byte with that number,
and every other character for the bytes of its UTF-8 form. A `%` without such digits stands for
itself, so every text can be read.
-/

namespace SafeMarkup.Url

/-- The byte that two hexadecimal digits stand for. -/
def byteOfDigits? (a b : Char) : Option UInt8 :=
  if isHexDigit a && isHexDigit b then
    some (UInt8.ofNat (hexDigitValue a * 16 + hexDigitValue b))
  else none

/-- The bytes that a text in a URL stands for. -/
def decode : Text → List UInt8
  | [] => []
  | '%' :: a :: b :: t =>
    match byteOfDigits? a b with
    | some byte => byte :: decode t
    | none => String.utf8EncodeChar '%' ++ decode (a :: b :: t)
  | c :: t => String.utf8EncodeChar c ++ decode t

/-- Does the text start with two hexadecimal digits? -/
def startsDigits : Text → Bool
  | a :: b :: _ => isHexDigit a && isHexDigit b
  | _ => false

variable {a b c : Char} {t : Text}

theorem decode_cons (hc : c ≠ '%') (t : Text) :
    decode (c :: t) = String.utf8EncodeChar c ++ decode t := by
  rw [decode]
  intro _ _ _ e _
  exact hc e

theorem decode_percent (ha : isHexDigit a = true) (hb : isHexDigit b = true) (t : Text) :
    decode ('%' :: a :: b :: t)
      = UInt8.ofNat (hexDigitValue a * 16 + hexDigitValue b) :: decode t := by
  rw [decode, byteOfDigits?, ha, hb]
  rfl

/-- A `%` that stands for itself. -/
theorem decode_lone_percent (ht : startsDigits t = false) :
    decode ('%' :: t) = String.utf8EncodeChar '%' ++ decode t := by
  match t with
  | [] | [_] => rfl
  | a :: b :: t =>
    rw [startsDigits] at ht
    rw [decode, byteOfDigits?, ht]
    rfl

example : decode "a%20%zz%".toList = "a %zz%".toList.flatMap String.utf8EncodeChar := by
  decide +kernel

end SafeMarkup.Url
