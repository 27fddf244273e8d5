import Mathlib.Data.Nat.Init
import SafeMarkup.Html.CharRef

/-!
# Hexadecimal numerals

Escapes write the code point of a character as a hexadecimal numeral. Reading the digits gives the
code point back, and six digits are enough for all of them.
-/

namespace SafeMarkup

open Html.CharRef

theorem isHexDigit_digitChar {n : Nat} (h : n < 16) : isHexDigit (Nat.digitChar n) = true := by
  have hall : ∀ m : Fin 16, isHexDigit (Nat.digitChar m) = true := by decide
  exact hall ⟨n, h⟩

theorem hexDigitValue_digitChar {n : Nat} (h : n < 16) : hexDigitValue (Nat.digitChar n) = n := by
  have hall : ∀ m : Fin 16, hexDigitValue (Nat.digitChar m) = m := by decide
  exact hall ⟨n, h⟩

theorem value_append_digit (radix : Nat) (digits : Text) (d : Char) :
    value radix (digits ++ [d]) = value radix digits * radix + hexDigitValue d := by
  simp [value]

namespace Text

/-- A numeral is made of hexadecimal digits. -/
theorem isHexDigit_ofNatHex {n : Nat} {c : Char} (h : c ∈ ofNatHex n) : isHexDigit c = true := by
  -- on the number: its last digit, and the number without it
  induction n using Nat.strong_induction_on generalizing c with
  | _ n ih =>
    rw [ofNatHex, Nat.toDigits_eq_if (by decide)] at h
    split at h
    · rw [List.mem_singleton.mp h]
      exact isHexDigit_digitChar ‹_›
    · rcases List.mem_append.mp h with h | h
      · exact ih (n / 16) (by omega) h
      · rw [List.mem_singleton.mp h]
        exact isHexDigit_digitChar (Nat.mod_lt n (by decide))

theorem isHexDigit_ofNatHex4 {n : Nat} {c : Char} (h : c ∈ ofNatHex4 n) : isHexDigit c = true := by
  simp only [ofNatHex4, List.map_cons, List.map_nil, List.mem_cons, List.not_mem_nil,
    or_false] at h
  rcases h with rfl | rfl | rfl | rfl <;> exact isHexDigit_digitChar (by omega)

/-- **A numeral is read back.** -/
theorem value_ofNatHex (n : Nat) : value 16 (ofNatHex n) = n := by
  induction n using Nat.strong_induction_on with
  | _ n ih =>
    rw [ofNatHex, Nat.toDigits_eq_if (by decide)]
    split
    · next hlt => exact (Nat.zero_add _).trans (hexDigitValue_digitChar hlt)
    · rw [value_append_digit, ← ofNatHex, ih (n / 16) (by omega),
        hexDigitValue_digitChar (Nat.mod_lt n (by decide))]
      omega

/-- A numeral of four digits is read back. -/
theorem value_ofNatHex4 {n : Nat} (h : n < 65536) : value 16 (ofNatHex4 n) = n := by
  have hdigit (m : Nat) : hexDigitValue (Nat.digitChar (m % 16)) = m % 16 :=
    hexDigitValue_digitChar (Nat.mod_lt m (by decide))
  simp only [value, ofNatHex4, List.map_cons, List.map_nil, List.foldl_cons, List.foldl_nil, hdigit]
  omega

theorem ofNatHex_ne_nil (n : Nat) : ofNatHex n ≠ [] := Nat.toDigits_ne_nil

/-- Six digits are enough for a code point. -/
theorem length_ofNatHex_le (c : Char) : (ofNatHex c.toNat).length ≤ 6 := by
  have hlt : c.toNat < 16 ^ 6 := by
    have hvalid : c.toNat.isValidChar := c.valid
    rcases hvalid with h | ⟨-, h⟩ <;> omega
  exact (Nat.length_toDigits_le_iff (by decide) (by decide)).mpr hlt

end Text

end SafeMarkup
