import FixpointLisp.Number.Rounding

/-!
# Decimal fractions and binary64 numbers

A decimal fraction is a whole number of digits times a power of ten.

* `Decimal.magnitude` rounds a decimal fraction to the binary64 grid.
* `Decimal.exact` is the decimal fraction equal to the number of a finite magnitude.
* `ofMagnitude` puts a sign and a magnitude together; `isNegative` and `magnitude` take a number
  apart.
-/

namespace FixpointLisp
namespace Number

/-- The fraction `digits * 10 ^ exponent`. -/
structure Decimal where
  digits : Nat
  exponent : Int
  deriving DecidableEq, Repr

namespace Decimal

/-- The magnitude nearest to a decimal fraction. Fractions of at least `10 ^ 400` and positive ones
below `10 ^ (-400)` are far outside the grid and are settled by their size alone, so the powers of
ten that are computed stay small. -/
def magnitude (d : Decimal) : Nat :=
  if d.digits = 0 then 0
  else if 400 ≤ d.exponent then infinity
  else if d.exponent + d.digits.log2 + 1 < -400 then 0
  else if 0 ≤ d.exponent then nearestMagnitude (d.digits * 10 ^ d.exponent.toNat) 1
  else nearestMagnitude d.digits (10 ^ (-d.exponent).toNat)

/-- The decimal fraction equal to the number of the finite magnitude `b`. -/
def exact (b : Nat) : Decimal :=
  if 1074 ≤ scale b then ⟨significand b * 2 ^ (scale b - 1074), 0⟩
  else ⟨significand b * 5 ^ (1074 - scale b), (scale b : Int) - 1074⟩

end Decimal

/-- The number with the given sign and magnitude. -/
def ofMagnitude (negative : Bool) (b : Nat) : Float :=
  Float.ofBits (UInt64.ofNat (if negative then 2 ^ (63 : Nat) + b else b))

/-- Whether the sign of a number is negative. -/
def isNegative (x : Float) : Bool := 2 ^ (63 : Nat) ≤ x.toBits.toNat

/-- The magnitude of a number. -/
def magnitude (x : Float) : Nat := x.toBits.toNat % 2 ^ (63 : Nat)

/-- The one number that is not a number. -/
def nan : Float := Float.ofBits 0x7FF8000000000000

end Number
end FixpointLisp
