import FixpointLisp.Number.Reader
import FixpointLisp.Number.Text
import FixpointLisp.Proofs.Number.Bits
import FixpointLisp.Proofs.Number.Rounding
import Mathlib.Data.List.TakeWhile
import Mathlib.Tactic

/-!
# The text of a number reads back

Writing lays out the digits of the shortest decimal around a point; reading takes the digits on both
sides of the point together. The two fractions may differ in the zeros at the end of their digits,
which rounding does not see.

* `ofDecimal_spec`: a numeral has the digits of its decimal up to zeros at the end.
* `readDecimal?_positional`: positional notation is read as a fraction of the same magnitude.
* `read?_write`: every number is what its text spells.
-/

namespace FixpointLisp
namespace Number

/-! ### Digits -/

@[simp] theorem ofDigits_toDigits (n : ℕ) : ofDigits (Nat.toDigits 10 n) = n :=
  Nat.ofDigitChars_ten_toDigits

@[simp] theorem ofDigits_zeros (k : ℕ) : ofDigits (Numeral.zeros k) = 0 := by
  have h : Nat.ofDigitChars 10 (List.replicate k '0') 0 = 0 := by simp
  exact h

theorem ofDigits_append_zeros (ds : List Char) (k : ℕ) :
    ofDigits (ds ++ Numeral.zeros k) = ofDigits ds * 10 ^ k := by
  rw [ofDigits_append, ofDigits_zeros, Numeral.zeros, List.length_replicate, Nat.add_zero]

theorem ofDigits_zeros_append (k : ℕ) (ds : List Char) :
    ofDigits (Numeral.zeros k ++ ds) = ofDigits ds := by
  rw [ofDigits_append, ofDigits_zeros, Nat.zero_mul, Nat.zero_add]

/-- A text that consists of decimal digits. -/
def AllDigits (cs : List Char) : Prop := ∀ c ∈ cs, c.isDigit

theorem allDigits_zeros (k : ℕ) : AllDigits (Numeral.zeros k) := by
  intro c hc
  rw [List.eq_of_mem_replicate hc]
  rfl

theorem AllDigits.append {cs ds : List Char} (hc : AllDigits cs) (hd : AllDigits ds) :
    AllDigits (cs ++ ds) := by
  intro c h
  exact (List.mem_append.1 h).elim (hc c) (hd c)

/-! ### Reading what is laid out -/

theorem readDecimal?_digits {ds : List Char} (h : AllDigits ds) (hne : ds ≠ []) :
    readDecimal? ds = some ⟨ofDigits ds, 0⟩ := by
  have htake : ds.takeWhile Char.isDigit = ds := List.takeWhile_eq_self_iff.2 h
  have hdrop : ds.dropWhile Char.isDigit = [] := List.dropWhile_eq_nil_iff.2 h
  simp [readDecimal?, htake, hdrop, cutFraction, readExponent?, hne]

theorem readDecimal?_point {ds fs : List Char} (hd : AllDigits ds) (hf : AllDigits fs)
    (hne : ds ≠ []) :
    readDecimal? (ds ++ '.' :: fs) = some ⟨ofDigits (ds ++ fs), -fs.length⟩ := by
  have htake : (ds ++ '.' :: fs).takeWhile Char.isDigit = ds := by
    rw [List.takeWhile_append_of_pos hd, List.takeWhile_cons_of_neg (by decide), List.append_nil]
  have hdrop : (ds ++ '.' :: fs).dropWhile Char.isDigit = '.' :: fs := by
    rw [List.dropWhile_append_of_pos hd, List.dropWhile_cons_of_neg (by decide)]
  have htake' : fs.takeWhile Char.isDigit = fs := List.takeWhile_eq_self_iff.2 hf
  have hdrop' : fs.dropWhile Char.isDigit = [] := List.dropWhile_eq_nil_iff.2 hf
  simp [readDecimal?, htake, hdrop, htake', hdrop', cutFraction, readExponent?, hne]

/-- Taking the zeros off the end of some digits. -/
theorem exists_zeros (ds : List Char) :
    ∃ k, (ds.reverse.dropWhile (· == '0')).reverse ++ Numeral.zeros k = ds := by
  refine ⟨(ds.reverse.takeWhile (· == '0')).length, ?_⟩
  have hz : ds.reverse.takeWhile (· == '0') =
      Numeral.zeros (ds.reverse.takeWhile (· == '0')).length := by
    refine List.eq_replicate_iff.2 ⟨rfl, fun c hc => ?_⟩
    simpa using List.mem_takeWhile_imp hc
  have h := congrArg List.reverse (List.takeWhile_append_dropWhile (p := (· == '0')) (l := ds.reverse))
  rw [hz] at h
  simpa [Numeral.zeros] using h

/-- What `ofDecimal` keeps of a positive decimal fraction. -/
theorem ofDecimal_spec {d : Decimal} (h : d.digits ≠ 0) :
    ∃ k : ℕ, AllDigits (Numeral.ofDecimal d).digits ∧ (Numeral.ofDecimal d).digits ≠ [] ∧
      d.digits = ofDigits (Numeral.ofDecimal d).digits * 10 ^ k ∧
      (Numeral.ofDecimal d).point = d.exponent + k + (Numeral.ofDecimal d).digits.length := by
  obtain ⟨k, hk⟩ := exists_zeros (Nat.toDigits 10 d.digits)
  have hval : d.digits = ofDigits (Numeral.ofDecimal d).digits * 10 ^ k := by
    rw [← ofDigits_append_zeros]
    exact (ofDigits_toDigits d.digits).symm.trans (congrArg ofDigits hk.symm)
  refine ⟨k, fun c hc => ?_, fun hnil => ?_, hval, ?_⟩
  · refine Nat.isDigit_of_mem_toDigits (by norm_num) (by norm_num) (n := d.digits) (b := 10) ?_
    rw [← hk]
    exact List.mem_append_left _ hc
  · rw [hnil] at hval
    exact h (by simpa [ofDigits] using hval)
  · have := congrArg List.length hk
    simp only [List.length_append, Numeral.zeros, List.length_replicate] at this
    simp only [Numeral.ofDecimal]
    omega

/-- Positional notation is read as a fraction of the same magnitude. -/
theorem readDecimal?_positional {d : Decimal} (h : d.digits ≠ 0) :
    ∃ d', readDecimal? ((Numeral.ofDecimal d).positional []) = some d' ∧
      d'.magnitude = d.magnitude := by
  obtain ⟨k, hdig, hne, hval, hpoint⟩ := ofDecimal_spec h
  generalize Numeral.ofDecimal d = n at hdig hne hval hpoint
  have hmag : d.magnitude = Decimal.magnitude ⟨ofDigits n.digits, d.exponent + k⟩ := by
    rw [← Decimal.magnitude_mul_pow, ← hval]
  rw [Numeral.positional]
  split_ifs with hsmall hmiddle
  · have hzero : AllDigits ['0'] := by simp [AllDigits]
    have hread := readDecimal?_point hzero ((allDigits_zeros (-n.point).toNat).append hdig) (by simp)
    refine ⟨_, hread, ?_⟩
    have hexp : -((Numeral.zeros (-n.point).toNat ++ n.digits).length : ℤ) = d.exponent + k := by
      rw [List.length_append, Numeral.zeros, List.length_replicate]
      omega
    rw [hmag, hexp, show ['0'] = Numeral.zeros 1 from rfl, ofDigits_zeros_append,
      ofDigits_zeros_append]
  · have hwhole : AllDigits (n.digits.take n.point.toNat) :=
      fun c hc => hdig c (List.mem_of_mem_take hc)
    have hfraction : AllDigits (n.digits.drop n.point.toNat) :=
      fun c hc => hdig c (List.mem_of_mem_drop hc)
    have hwhole_ne : n.digits.take n.point.toNat ≠ [] := by
      rw [Ne, List.take_eq_nil_iff]
      rintro (h0 | h0)
      · omega
      · exact hne h0
    refine ⟨_, readDecimal?_point hwhole hfraction hwhole_ne, ?_⟩
    have hexp : -((n.digits.drop n.point.toNat).length : ℤ) = d.exponent + k := by
      rw [List.length_drop]
      omega
    rw [hmag, hexp, List.take_append_drop]
  · have hread := readDecimal?_digits (hdig.append (allDigits_zeros (n.point.toNat - n.digits.length)))
      (by simp [hne])
    refine ⟨_, by rw [List.append_nil]; exact hread, ?_⟩
    have hexp : d.exponent + k = 0 + ((n.point.toNat - n.digits.length : ℕ) : ℤ) := by
      omega
    rw [hmag, ofDigits_append_zeros, Decimal.magnitude_mul_pow, hexp]

/-! ### Signs -/

/-- The text of a sign; a positive number has none. -/
def signText (negative : Bool) : List Char := if negative then ['-'] else []

theorem cutSign_signText_append {cs : List Char} (negative : Bool)
    (h : ∀ c ∈ cs.head?, c ≠ '-' ∧ c ≠ '+') : cutSign (signText negative ++ cs) = (negative, cs) := by
  cases negative with
  | true => rfl
  | false =>
    cases cs with
    | nil => rfl
    | cons c cs =>
      have hc := h c rfl
      simp [signText, cutSign, hc.1, hc.2]

theorem head_of_readDecimal? {cs : List Char} {d : Decimal} (h : readDecimal? cs = some d) :
    ∀ c ∈ cs.head?, c ≠ '-' ∧ c ≠ '+' := by
  cases cs with
  | nil => simp
  | cons c cs =>
    rintro _ ⟨rfl⟩
    constructor <;> rintro rfl <;> simp [readDecimal?, cutFraction] at h

theorem read?_of_readDecimal? {cs : List Char} {d : Decimal} (negative : Bool)
    (h : readDecimal? cs = some d) :
    read? (String.ofList (signText negative ++ cs)) = some (ofMagnitude negative d.magnitude) := by
  simp only [read?, String.toList_ofList, cutSign_signText_append negative (head_of_readDecimal? h), h]

/-- Every number is what its text spells. -/
theorem read?_write (x : Float) : read? (write x) = some x := by
  have hparts := ofMagnitude_parts x
  have hwrite : write x = String.ofList (if infinity < magnitude x then ['N', 'a', 'N']
      else if magnitude x = infinity then signText (isNegative x) ++ ['i', 'n', 'f']
      else if magnitude x = 0 then signText (isNegative x) ++ ['0']
      else signText (isNegative x) ++ (Numeral.ofDecimal (shortest (magnitude x))).positional []) :=
    rfl
  rw [hwrite]
  by_cases hnan : infinity < magnitude x
  · rw [if_pos hnan, eq_nan_of_infinity_lt hnan]
    rfl
  rw [if_neg hnan]
  by_cases hinf : magnitude x = infinity
  · rw [if_pos hinf]
    rw [hinf] at hparts
    nth_rewrite 2 [← hparts]
    cases isNegative x <;> rfl
  rw [if_neg hinf]
  by_cases hzero : magnitude x = 0
  · have hread : readDecimal? ['0'] = some ⟨0, 0⟩ := rfl
    rw [hzero] at hparts
    rw [if_pos hzero, read?_of_readDecimal? _ hread]
    exact congrArg some hparts
  rw [if_neg hzero]
  have hfinite : magnitude x < infinity := by omega
  have hdigits : (shortest (magnitude x)).digits ≠ 0 := by
    intro h0
    apply hzero
    rw [← magnitude_shortest hfinite, Decimal.magnitude, if_pos h0]
  obtain ⟨d, hread, hd⟩ := readDecimal?_positional hdigits
  rw [read?_of_readDecimal? _ hread, hd, magnitude_shortest hfinite, hparts]

end Number
end FixpointLisp
