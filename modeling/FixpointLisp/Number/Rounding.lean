/-!
# Rounding a quotient to the binary64 grid

Numbers of the language are binary64 floating-point numbers. Without its sign, such a number is
given by its *magnitude*, the value of its low 63 bits: magnitudes below `infinity` are the finite
numbers in increasing order, and `significand b * 2 ^ (scale b - 1074)` is the number of magnitude
`b`.

* `roundDiv` divides and rounds to the nearest whole number, halves to even.
* `floorLog2` is the binary logarithm of a quotient, rounded down.
* `nearestMagnitude` is the magnitude nearest to a quotient of natural numbers.
-/

namespace FixpointLisp
namespace Number

/-- Powers of natural numbers, whatever other powers are known. -/
scoped instance (priority := high) naturalPow : Pow Nat Nat := instPowNat

/-- The magnitude of infinity. -/
def infinity : Nat := 0x7FF0000000000000

/-- The whole factor of the number of magnitude `b`. -/
def significand (b : Nat) : Nat :=
  if b < 2 ^ (52 : Nat) then b else b % 2 ^ (52 : Nat) + 2 ^ (52 : Nat)

/-- The binary exponent of the number of magnitude `b`, counted from the smallest one. -/
def scale (b : Nat) : Nat := b / 2 ^ (52 : Nat) - 1

/-- The quotient `num / den` rounded to a whole number, halves to even. -/
def roundDiv (num den : Nat) : Nat :=
  let q := num / den
  let r := num % den
  if 2 * r < den then q
  else if den < 2 * r then q + 1
  else if q % 2 = 0 then q else q + 1

/-- Whether `2 ^ e ≤ num / den`. -/
def twoPowLe (e : Int) (num den : Nat) : Bool :=
  if 0 ≤ e then den * 2 ^ e.toNat ≤ num else den ≤ num * 2 ^ (-e).toNat

/-- The binary logarithm of `num / den`, rounded down; both are positive. -/
def floorLog2 (num den : Nat) : Int :=
  let e : Int := (num.log2 : Int) - den.log2
  if twoPowLe e num den then e else e - 1

/-- The magnitude nearest to `num / den`, halves to an even significand; from half a step above the
greatest finite number on it is `infinity`. The denominator is positive. -/
def nearestMagnitude (num den : Nat) : Nat :=
  if num = 0 then 0
  else
    let e := max (floorLog2 num den - 52) (-1074)
    let m := if 0 ≤ e then roundDiv num (den * 2 ^ e.toNat) else roundDiv (num * 2 ^ (-e).toNat) den
    min ((e + 1074).toNat * 2 ^ (52 : Nat) + m) infinity

end Number
end FixpointLisp
