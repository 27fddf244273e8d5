import SafeMarkup.Number.Shortest

/-!
# Layout of numerals

The digits of a number can be laid out with a decimal point alone, or with an exponent. What is
chosen when, and what is written for values that are no numbers, is up to the `Layout`.
-/

namespace SafeMarkup

/-- The conventions of a way to write numbers. -/
structure Layout where
  nan : Text
  infinity : Text
  /-- Is `.0` written after an integer? -/
  pointZero : Bool
  /-- The powers of ten from the first up to the second, and what lies between them, are written
  without an exponent. If there are none, no number is written with an exponent. -/
  positional : Option (Int × Int)

namespace Decimal

/-- The numeral with a decimal point and without an exponent. -/
def positional (pointZero : Bool) (d : Decimal) : Text :=
  if d.digits.length ≤ d.point then
    d.digits ++ List.replicate (d.point - d.digits.length).toNat '0' ++
      (if pointZero then ['.', '0'] else [])
  else if 0 < d.point then
    d.digits.take d.point.toNat ++ ['.'] ++ d.digits.drop d.point.toNat
  else ['0', '.'] ++ List.replicate (-d.point).toNat '0' ++ d.digits

/-- The numeral with one digit before the point and an exponent. -/
def scientific (d : Decimal) : Text :=
  d.digits.take 1 ++ (if d.digits.length ≤ 1 then [] else '.' :: d.digits.drop 1) ++
    ['e'] ++ Text.ofInt (d.point - 1)

end Decimal

/-- The text of a number. Zero has a sign too; NaN has none. -/
def Layout.write (layout : Layout) (x : Binary64) : Text :=
  let sign := if x.isNegative then ['-'] else []
  if x.isNaN then layout.nan
  else if x.isInfinite then sign ++ layout.infinity
  else
    let d := x.shortest
    let withExponent :=
      match layout.positional with
      | none => false
      | some (low, high) => x.significand ≠ 0 && (d.point - 1 < low || high ≤ d.point - 1)
    sign ++ (if withExponent then d.scientific else d.positional layout.pointZero)

end SafeMarkup
