import FixpointLisp.Number.Decimal

/-!
# The shortest decimal of a number

Among the decimal fractions that round to a given number, its text uses one with the fewest digits,
and among those the one nearest to the number.

* `gridPoint?` looks for it among the fractions with a given number of digits: only the two
  neighbours of the number on that decimal grid need a look.
* `shortest` tries one digit, two digits and so on, up to the exact value.
-/

namespace FixpointLisp
namespace Number

/-- The number of decimal digits of `n`. -/
def digitCount (n : Nat) : Nat := (Nat.toDigits 10 n).length

/-- The neighbour of `d` that rounds to the magnitude `b`, on the grid of decimals that end `cut`
places before the last digit of `d`. When both neighbours do, it is the nearer one, and the larger
one when both are equally near. -/
def gridPoint? (b : Nat) (d : Decimal) (cut : Nat) : Option Decimal :=
  let unit := 10 ^ cut
  let below : Decimal := ⟨d.digits / unit, d.exponent + cut⟩
  let above : Decimal := ⟨d.digits / unit + 1, d.exponent + cut⟩
  if above.magnitude = b ∧ (below.magnitude ≠ b ∨ unit ≤ 2 * (d.digits % unit)) then some above
  else if below.magnitude = b then some below
  else none

/-- The first grid point on the grids that end `cut`, `cut - 1`, …, `1` places before the last digit
of `d`, or else `d`. -/
def coarsest (b : Nat) (d : Decimal) : Nat → Decimal
  | 0 => d
  | cut + 1 => (gridPoint? b d (cut + 1)).getD (coarsest b d cut)

/-- A decimal fraction with the fewest digits that rounds to the finite magnitude `b`. -/
def shortest (b : Nat) : Decimal :=
  let d := Decimal.exact b
  coarsest b d (digitCount d.digits - 1)

end Number
end FixpointLisp
