import FixpointLisp.Number.Shortest

/-!
# Writing numbers

A finite number is written with the digits of its shortest decimal. Two notations lay them out.

* `Numeral` is a row of digits with the place of the decimal point.
* `write` is the text of a value: never an exponent, and no point behind a whole number.
* `inspect` is the text in a dump of a value: a whole number keeps `.0`, and numbers from `10 ^ 16`
  on or below `10 ^ (-4)` have an exponent.
-/

namespace FixpointLisp
namespace Number

/-- The number `0.d₁d₂… * 10 ^ point`, the last digit not zero. -/
structure Numeral where
  digits : List Char
  point : Int

namespace Numeral

/-- The digits of a decimal fraction, without the zeros at its end. -/
def ofDecimal (d : Decimal) : Numeral :=
  let ds := Nat.toDigits 10 d.digits
  ⟨(ds.reverse.dropWhile (· == '0')).reverse, d.exponent + ds.length⟩

/-- A row of zeros. -/
def zeros (n : Nat) : List Char := List.replicate n '0'

/-- Positional notation; a whole number ends in `whole`. -/
def positional (whole : List Char) (n : Numeral) : List Char :=
  if n.point ≤ 0 then '0' :: '.' :: zeros (-n.point).toNat ++ n.digits
  else if n.point < n.digits.length then
    n.digits.take n.point.toNat ++ '.' :: n.digits.drop n.point.toNat
  else n.digits ++ zeros (n.point.toNat - n.digits.length) ++ whole

/-- The text of a whole number with its sign. -/
def intText (n : Int) : List Char :=
  if n < 0 then '-' :: Nat.toDigits 10 n.natAbs else Nat.toDigits 10 n.natAbs

/-- Notation with an exponent: one digit, a point and the other digits if there are any, then the
exponent. -/
def scientific (n : Numeral) : List Char :=
  match n.digits with
  | [] => []
  | [d] => d :: 'e' :: intText (n.point - 1)
  | d :: ds => d :: '.' :: ds ++ 'e' :: intText (n.point - 1)

end Numeral

/-- The characters of a number: its special text, or its sign and the layout of its digits. Zero has
the text `zero`. -/
def layout (zero : List Char) (lay : Numeral → List Char) (x : Float) : List Char :=
  let b := magnitude x
  let sign := if isNegative x then ['-'] else []
  if infinity < b then ['N', 'a', 'N']
  else if b = infinity then sign ++ ['i', 'n', 'f']
  else if b = 0 then sign ++ zero
  else sign ++ lay (Numeral.ofDecimal (shortest b))

/-- The text of a number. -/
def write (x : Float) : String := String.ofList (layout ['0'] (Numeral.positional []) x)

/-- The text of a number in a dump. -/
def inspect (x : Float) : String :=
  String.ofList (layout ['0', '.', '0']
    (fun n => if n.point ≤ -4 ∨ 16 < n.point then n.scientific else n.positional ['.', '0']) x)

end Number
end FixpointLisp
