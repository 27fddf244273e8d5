import SafeMarkup.Html.CharRef

/-!
# Undoing references

A browser replaces the references of a text by their characters, from the left to the right. What
a reference stands for is not looked at again, so it never becomes part of another reference.
-/

namespace SafeMarkup.Html.CharRef

/-- Decodes a text whose first `skip` characters belong to a reference that is decoded already. -/
def decodeFrom : (skip : Nat) → Text → Text
  | _, [] => []
  | skip + 1, _ :: rest => decodeFrom skip rest
  | 0, c :: rest =>
    if c = '&' then
      match scan true rest with
      | .complete length char => char :: decodeFrom (length - 1) rest
      | .incomplete | .absent => '&' :: decodeFrom 0 rest
    else c :: decodeFrom 0 rest

/-- Replaces each reference by the character that it refers to. -/
def decode (t : Text) : Text := decodeFrom 0 t

@[simp] theorem decode_nil : decode [] = [] := rfl

/-- Skipping is dropping. -/
theorem decodeFrom_eq_decode_drop (skip : Nat) (t : Text) :
    decodeFrom skip t = decode (t.drop skip) := by
  induction t generalizing skip with
  | nil => simp [decode, decodeFrom]
  | cons c rest ih =>
    cases skip with
    | zero => simp [decode]
    | succ skip => simpa [decodeFrom] using ih skip

theorem decode_cons {c : Char} (hc : c ≠ '&') (rest : Text) :
    decode (c :: rest) = c :: decode rest := by
  simp [decode, decodeFrom, hc]

/-- A reference is replaced as a whole. -/
theorem decode_complete {rest : Text} {length : Nat} {char : Char}
    (h : scan true rest = .complete length char) :
    decode ('&' :: rest) = char :: decode (rest.drop (length - 1)) := by
  rw [← decodeFrom_eq_decode_drop]
  simp [decode, decodeFrom, h]

/-- An `&` that starts no reference stands for itself. -/
theorem decode_amp {rest : Text} (h : startsRef rest = false) :
    decode ('&' :: rest) = '&' :: decode rest := by
  cases hscan : scan true rest with
  | complete length char => simp [startsRef, hscan] at h
  | incomplete => exact absurd hscan (scan_last rest)
  | absent => simp [decode, decodeFrom, hscan]

example : decode "&lt;b&gt &amp;lt; &#x27;&none;".toList = "<b> &lt; '&none;".toList := by decide

end SafeMarkup.Html.CharRef
