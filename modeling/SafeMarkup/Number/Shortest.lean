import SafeMarkup.Text.Basic
import SafeMarkup.Number.Binary64

/-!
# Shortest decimal numerals

A decimal numeral stands for the binary64 number nearest to it. Of the numerals that stand for a
given number, the shortest is chosen, and of those with as many digits the one nearest to the
number. Numerals with `n` digits form a grid; if one of them stands for the number, then so does one
of the number's two neighbours on that grid.
-/

namespace SafeMarkup

/-- The positive number `0.digits * 10 ^ point`, whose first and last digits are not zero. Zero has
the digit zero. -/
structure Decimal where
  digits : Text
  point : Int
  deriving DecidableEq, Repr

namespace Decimal

/-- The number zero. -/
def zero : Decimal := ⟨['0'], 1⟩

/-- The number `n * 10 ^ exponent`. -/
def ofNat (n : Nat) (exponent : Int) : Decimal :=
  let digits := Text.ofNat n
  ⟨(digits.reverse.dropWhile (· == '0')).reverse, digits.length + exponent⟩

end Decimal

/-- The magnitudes that are rounded to a given one: those between `below` and `above`, all of them
multiples of `2 ^ scale`. -/
structure RoundingInterval where
  value : Nat
  below : Nat
  above : Nat
  /-- Do the ends belong to the interval? -/
  closed : Bool
  scale : Int
  deriving DecidableEq, Repr

namespace RoundingInterval

/-- The magnitudes that are rounded to that of `x`. The ends lie halfway to the neighbours of `x`,
and they are rounded to the even one of the two. -/
def ofBinary64 (x : Binary64) : RoundingInterval where
  value := 4 * x.significand
  below := 4 * x.significand - (if x.isNarrowBelow then 1 else 2)
  above := 4 * x.significand + 2
  closed := x.significand % 2 == 0
  scale := x.exponent - 2

/-- The exponent `k` with `10 ^ (k - 1) ≤ value < 10 ^ k`, where the value is `num / den`. -/
def magnitude (num den : Nat) : Int :=
  if den ≤ num then (Text.ofNat (num / den)).length
  else 1 - (Text.ofNat ((den - 1) / num)).length

/-- Looks for a multiple of `10 ^ exponent` that is rounded to the value, and gives the factor. Only
the two neighbours of the value can be the nearest. Of two at the same distance the larger is
taken. -/
def nearest? (r : RoundingInterval) (exponent : Int) : Option Nat :=
  let unit := Nat.pow 10 exponent.toNat * Nat.pow 2 (-r.scale).toNat
  let scaled (n : Nat) : Nat := n * (Nat.pow 2 r.scale.toNat * Nat.pow 10 (-exponent).toNat)
  let contains (n : Nat) : Bool :=
    if r.closed then scaled r.below ≤ n * unit && n * unit ≤ scaled r.above
    else scaled r.below < n * unit && n * unit < scaled r.above
  let n := scaled r.value / unit
  if contains n then
    if contains (n + 1) && unit ≤ 2 * (scaled r.value - n * unit) then some (n + 1) else some n
  else if contains (n + 1) then some (n + 1)
  else none

/-- The shortest numeral. Seventeen digits are always enough. -/
def shortest (r : RoundingInterval) : Decimal :=
  if r.value = 0 then .zero
  else
    let k := magnitude (r.value * Nat.pow 2 r.scale.toNat) (Nat.pow 2 (-r.scale).toNat)
    let found := (List.range 17).findSome? fun n : Nat =>
      let exponent : Int := k - (n + 1)
      (r.nearest? exponent).map (Decimal.ofNat · exponent)
    found.getD .zero

end RoundingInterval

/-- The shortest numeral of the magnitude of a finite number. -/
def Binary64.shortest (x : Binary64) : Decimal := (RoundingInterval.ofBinary64 x).shortest

example : (Binary64.mk 0x3fb999999999999a).shortest = ⟨['1'], 0⟩ := by decide +kernel
example : (Binary64.mk 0x44b52d02c7e14af6).shortest = ⟨['1'], 24⟩ := by decide +kernel

end SafeMarkup
