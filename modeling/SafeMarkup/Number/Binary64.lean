/-!
# Binary64 numbers

A number of the 64-bit binary floating-point format, kept as its bits: a sign, eleven bits of
exponent and 52 bits of fraction. A finite number has the magnitude `significand * 2 ^ exponent`.
-/

namespace SafeMarkup

/-- A 64-bit binary floating-point number. -/
structure Binary64 where
  bits : UInt64
  deriving DecidableEq, Repr

namespace Binary64

/-- The number that a `Float` is. -/
def ofFloat (x : Float) : Binary64 := ⟨x.toBits⟩

/-- The bit above the fraction, `2 ^ 52`. -/
def unitBit : Nat := 0x10000000000000

/-- The uppermost bit, `2 ^ 63`. -/
def signBit : Nat := 0x8000000000000000

/-- Is the sign bit set? It may be on zero and on NaN too. -/
def isNegative (x : Binary64) : Bool := signBit ≤ x.bits.toNat

def exponentBits (x : Binary64) : Nat := x.bits.toNat / unitBit % 2048

def fraction (x : Binary64) : Nat := x.bits.toNat % unitBit

def isNaN (x : Binary64) : Bool := x.exponentBits == 2047 && x.fraction != 0

def isInfinite (x : Binary64) : Bool := x.exponentBits == 2047 && x.fraction == 0

/-- The significand of a finite number. Numbers with the least exponent have no implicit bit. -/
def significand (x : Binary64) : Nat :=
  if x.exponentBits = 0 then x.fraction else x.fraction + unitBit

/-- The power of two that the significand of a finite number is multiplied with. -/
def exponent (x : Binary64) : Int :=
  (if x.exponentBits = 0 then 1 else x.exponentBits : Nat) - 1075

/-- Is the next smaller magnitude nearer than the next larger one? It is at powers of two, except
where the exponent is the least already. -/
def isNarrowBelow (x : Binary64) : Bool := x.fraction == 0 && 1 < x.exponentBits

end Binary64

end SafeMarkup
