import FixpointLisp.Number.Decimal
import FixpointLisp.Text.Letters

/-!
# Reading numbers

The text of a number is an optional sign followed by

* one of the words `inf`, `infinity` and `nan` in any case, or
* ASCII digits with at most one point among them and at least one digit, then optionally `e` or `E`,
  an optional sign and at least one digit.

The digits of an exponent are taken up only as long as its size is below `exponentBound`, so every
exponent stays small; the digits in front of it are all taken up.

`read?` gives the binary64 number nearest to the decimal fraction and refuses every other text.
-/

namespace FixpointLisp
namespace Number

/-- Puts a decimal digit behind those of a number. -/
def pushDigit (n : Nat) (d : Char) : Nat := 10 * n + (d.toNat - '0'.toNat)

/-- The value of a row of decimal digits. -/
def ofDigits (ds : List Char) : Nat := ds.foldl pushDigit 0

theorem foldl_pushDigit (n : Nat) (ds : List Char) :
    ds.foldl pushDigit n = n * 10 ^ ds.length + ofDigits ds := by
  induction ds generalizing n with
  | nil => simp [ofDigits]
  | cons d ds ih =>
    have h : ofDigits (d :: ds) = pushDigit 0 d * 10 ^ ds.length + ofDigits ds := ih (pushDigit 0 d)
    rw [List.foldl_cons, ih, h, List.length_cons, Nat.pow_succ]
    unfold pushDigit
    grind

/-- A row of digits in two parts: the front part counts by the length of the other. -/
theorem ofDigits_append (ds es : List Char) :
    ofDigits (ds ++ es) = ofDigits ds * 10 ^ es.length + ofDigits es := by
  rw [ofDigits, List.foldl_append]
  exact foldl_pushDigit (ofDigits ds) es

/-- The value of a row of decimal digits, from the values of its halves, quarters and so on down to
`levels` levels. Long rows take far fewer steps on long numbers this way. -/
def ofHalves : (levels : Nat) → List Char → Nat
  | 0, ds => ofDigits ds
  | levels + 1, ds =>
    let back := ds.drop (ds.length / 2)
    ofHalves levels (ds.take (ds.length / 2)) * 10 ^ back.length + ofHalves levels back

/-- The levels change the steps and not the value. -/
theorem ofHalves_eq_ofDigits (levels : Nat) (ds : List Char) :
    ofHalves levels ds = ofDigits ds := by
  induction levels generalizing ds with
  | zero => rfl
  | succ levels ih =>
    simp only [ofHalves, ih]
    rw [← ofDigits_append, List.take_append_drop]

/-- The value of a row of decimal digits of any length. -/
def ofLongDigits (ds : List Char) : Nat := ofHalves (ds.length / 256).log2 ds

@[simp] theorem ofLongDigits_eq_ofDigits (ds : List Char) : ofLongDigits ds = ofDigits ds :=
  ofHalves_eq_ofDigits _ ds

/-- The size from which on an exponent takes up no further digits. -/
def exponentBound : Nat := 2 ^ (16 : Nat)

/-- Puts a decimal digit behind those of the size of an exponent, if that is below the bound. -/
def pushExponentDigit (n : Nat) (d : Char) : Nat := if n < exponentBound then pushDigit n d else n

/-- The size of an exponent with the given digits. -/
def exponentSize (ds : List Char) : Nat := ds.foldl pushExponentDigit 0

theorem le_foldl_pushDigit (n : Nat) (ds : List Char) : n ≤ ds.foldl pushDigit n := by
  induction ds generalizing n with
  | nil => exact Nat.le_refl n
  | cons d ds ih => exact Nat.le_trans (by unfold pushDigit; omega) (ih (pushDigit n d))

theorem foldl_pushExponentDigit {n : Nat} {ds : List Char}
    (h : ds.foldl pushDigit n < exponentBound) :
    ds.foldl pushExponentDigit n = ds.foldl pushDigit n := by
  induction ds generalizing n with
  | nil => rfl
  | cons d ds ih =>
    have hn : n < exponentBound := Nat.lt_of_le_of_lt (le_foldl_pushDigit n (d :: ds)) h
    simpa [pushExponentDigit, hn] using ih h

/-- Below the bound the size of an exponent is the value of its digits. -/
theorem exponentSize_eq_ofDigits {ds : List Char} (h : ofDigits ds < exponentBound) :
    exponentSize ds = ofDigits ds := foldl_pushExponentDigit h

/-- A sign at the front of a text, and the text after it. -/
def cutSign : List Char → Bool × List Char
  | '-' :: cs => (true, cs)
  | '+' :: cs => (false, cs)
  | cs => (false, cs)

/-- The exponent at the end of a number; it is zero when the text is empty. -/
def readExponent? : List Char → Option Int
  | [] => some 0
  | c :: cs =>
    let (negative, ds) := cutSign cs
    if (c = 'e' ∨ c = 'E') ∧ ds ≠ [] ∧ ds.all Char.isDigit then
      some (if negative then -(exponentSize ds : Int) else exponentSize ds)
    else none

/-- The digits after the point, if there is a point, and the text after them. -/
def cutFraction : List Char → List Char × List Char
  | '.' :: cs => (cs.takeWhile Char.isDigit, cs.dropWhile Char.isDigit)
  | cs => ([], cs)

/-- The decimal fraction that a text without sign spells. -/
def readDecimal? (cs : List Char) : Option Decimal :=
  let whole := cs.takeWhile Char.isDigit
  let (fraction, rest) := cutFraction (cs.dropWhile Char.isDigit)
  if whole = [] ∧ fraction = [] then none
  else (readExponent? rest).map fun e => ⟨ofLongDigits (whole ++ fraction), e - fraction.length⟩

/-- The special number that a word names, with the given sign. -/
def readWord? (negative : Bool) (word : String) : Option Float :=
  if Text.sameWord word "inf" ∨ Text.sameWord word "infinity" then
    some (ofMagnitude negative infinity)
  else if Text.sameWord word "nan" then some nan
  else none

/-- The number that a text spells. -/
def read? (text : String) : Option Float :=
  let (negative, cs) := cutSign text.toList
  match readDecimal? cs with
  | some d => some (ofMagnitude negative d.magnitude)
  | none => readWord? negative (String.ofList cs)

end Number
end FixpointLisp
