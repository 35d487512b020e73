import FixpointLisp.Number.Shortest
import Mathlib.Data.Int.Log
import Mathlib.Tactic

/-!
# Rounding depends on the quotient alone

The nearest magnitude is computed from a numerator and a denominator. It depends only on their
quotient, and every finite magnitude is nearest to its own number.

* `floorLog2_eq_log`: the computed logarithm is that of the quotient.
* `nearestMagnitude_congr`: equal quotients have the same nearest magnitude.
* `nearestMagnitude_self`: the number of a finite magnitude rounds to that magnitude.
* `Decimal.magnitude_mul_pow`: zeros behind the digits of a decimal fraction do not matter.
* `magnitude_shortest`: the shortest decimal of a number rounds to that number.
-/

namespace FixpointLisp
namespace Number

/-! ### Rounded division -/

theorem roundDiv_mul_right (num den : ℕ) {k : ℕ} (hk : 0 < k) :
    roundDiv (num * k) (den * k) = roundDiv num den := by
  have h₁ : 2 * (num % den * k) < den * k ↔ 2 * (num % den) < den := by
    rw [← mul_assoc, Nat.mul_lt_mul_right hk]
  have h₂ : den * k < 2 * (num % den * k) ↔ den < 2 * (num % den) := by
    rw [← mul_assoc, Nat.mul_lt_mul_right hk]
  simp only [roundDiv, Nat.mul_div_mul_right _ _ hk, Nat.mul_mod_mul_right, h₁, h₂]

theorem roundDiv_mul_self (q : ℕ) {den : ℕ} (hd : 0 < den) : roundDiv (q * den) den = q := by
  simp [roundDiv, Nat.mul_div_cancel _ hd, hd]

theorem div_le_roundDiv (num den : ℕ) : num / den ≤ roundDiv num den := by
  unfold roundDiv
  dsimp only
  split_ifs <;> omega

theorem roundDiv_eq_zero {num den : ℕ} (h : 2 * num < den) : roundDiv num den = 0 := by
  have hlt : num < den := by omega
  simp [roundDiv, Nat.div_eq_of_lt hlt, Nat.mod_eq_of_lt hlt, h]

/-! ### The binary logarithm of a quotient -/

theorem twoPowLe_iff (e : ℤ) (num : ℕ) {den : ℕ} (hd : 0 < den) :
    twoPowLe e num den ↔ (2 : ℚ) ^ e ≤ num / den := by
  have hd' : (0 : ℚ) < den := by exact_mod_cast hd
  rw [le_div_iff₀ hd', twoPowLe]
  split_ifs with he
  · obtain ⟨n, rfl⟩ := Int.eq_ofNat_of_zero_le he
    simp only [Int.toNat_natCast, decide_eq_true_eq, zpow_natCast]
    rw [mul_comm]
    exact_mod_cast Iff.rfl
  · obtain ⟨n, rfl⟩ : ∃ n : ℕ, e = -n := ⟨(-e).toNat, by omega⟩
    have hp : (0 : ℚ) < 2 ^ n := by positivity
    simp only [neg_neg, Int.toNat_natCast, decide_eq_true_eq, zpow_neg, zpow_natCast]
    rw [inv_mul_le_iff₀ hp, mul_comm]
    exact_mod_cast Iff.rfl

/-- The computed logarithm is that of the quotient, rounded down. -/
theorem floorLog2_eq_log {num den : ℕ} (hn : 0 < num) (hd : 0 < den) :
    floorLog2 num den = Int.log 2 (num / den : ℚ) := by
  have hn' : (0 : ℚ) < num := by exact_mod_cast hn
  have hd' : (0 : ℚ) < den := by exact_mod_cast hd
  have hq : (0 : ℚ) < num / den := div_pos hn' hd'
  have hlo : (num.log2 : ℤ) - den.log2 - 1 ≤ Int.log 2 (num / den : ℚ) := by
    rw [← Int.zpow_le_iff_le_log one_lt_two hq, le_div_iff₀ hd']
    have h₁ : (2 : ℚ) ^ num.log2 ≤ num := by exact_mod_cast Nat.log2_self_le hn.ne'
    have h₂ : (den : ℚ) ≤ 2 ^ (den.log2 + 1) := by exact_mod_cast Nat.lt_log2_self.le
    push_cast
    calc (2 : ℚ) ^ ((num.log2 : ℤ) - den.log2 - 1) * den
        ≤ 2 ^ ((num.log2 : ℤ) - den.log2 - 1) * 2 ^ (den.log2 + 1) := by gcongr
      _ = 2 ^ num.log2 := by
        rw [← zpow_natCast, ← zpow_natCast, ← zpow_add₀ two_ne_zero]
        congr 1
        push_cast
        ring
      _ ≤ num := h₁
  have hhi : Int.log 2 (num / den : ℚ) < (num.log2 : ℤ) - den.log2 + 1 := by
    rw [← Int.lt_zpow_iff_log_lt one_lt_two hq, div_lt_iff₀ hd']
    have h₁ : (num : ℚ) < 2 ^ (num.log2 + 1) := by exact_mod_cast Nat.lt_log2_self
    have h₂ : (2 : ℚ) ^ den.log2 ≤ den := by exact_mod_cast Nat.log2_self_le hd.ne'
    push_cast
    calc (num : ℚ) < 2 ^ (num.log2 + 1) := h₁
      _ = 2 ^ ((num.log2 : ℤ) - den.log2 + 1) * 2 ^ den.log2 := by
        rw [← zpow_natCast, ← zpow_natCast, ← zpow_add₀ two_ne_zero]
        congr 1
        push_cast
        ring
      _ ≤ 2 ^ ((num.log2 : ℤ) - den.log2 + 1) * den := by gcongr
  have hiff : twoPowLe ((num.log2 : ℤ) - den.log2) num den ↔
      (num.log2 : ℤ) - den.log2 ≤ Int.log 2 (num / den : ℚ) := by
    rw [twoPowLe_iff _ _ hd, ← Int.zpow_le_iff_le_log one_lt_two hq]
    norm_cast
  rw [floorLog2]
  split_ifs with h
  · have := hiff.1 h
    omega
  · have := mt hiff.2 h
    omega

/-! ### The nearest magnitude -/

theorem nearestMagnitude_mul_right (num : ℕ) {den k : ℕ} (hd : 0 < den) (hk : 0 < k) :
    nearestMagnitude (num * k) (den * k) = nearestMagnitude num den := by
  rcases Nat.eq_zero_or_pos num with rfl | hn
  · simp [nearestMagnitude]
  have hlog : floorLog2 (num * k) (den * k) = floorLog2 num den := by
    have hk' : (k : ℚ) ≠ 0 := by exact_mod_cast hk.ne'
    rw [floorLog2_eq_log (Nat.mul_pos hn hk) (Nat.mul_pos hd hk), floorLog2_eq_log hn hd]
    push_cast
    rw [mul_div_mul_right _ _ hk']
  have hcoarse (n : ℕ) : roundDiv (num * k) (den * k * 2 ^ n) = roundDiv num (den * 2 ^ n) := by
    rw [mul_right_comm, roundDiv_mul_right _ _ hk]
  have hfine (n : ℕ) : roundDiv (num * k * 2 ^ n) (den * k) = roundDiv (num * 2 ^ n) den := by
    rw [mul_right_comm, roundDiv_mul_right _ _ hk]
  simp only [nearestMagnitude, Nat.mul_eq_zero, hn.ne', hk.ne', or_self, if_false, hlog, hcoarse,
    hfine]

/-- The nearest magnitude depends only on the quotient. -/
theorem nearestMagnitude_congr {num den num' den' : ℕ} (hd : 0 < den) (hd' : 0 < den')
    (h : num * den' = num' * den) : nearestMagnitude num den = nearestMagnitude num' den' := by
  rw [← nearestMagnitude_mul_right num hd hd', h, mul_comm den, nearestMagnitude_mul_right num' hd' hd]

/-- The binary logarithm of a dyadic fraction. -/
theorem floorLog2_dyadic {m : ℕ} (hm : 0 < m) (s t : ℕ) :
    floorLog2 (m * 2 ^ s) (2 ^ t) = (m.log2 : ℤ) + s - t := by
  have hm' : (0 : ℚ) < m := by exact_mod_cast hm
  have hq : ((m * 2 ^ s : ℕ) / (2 ^ t : ℕ) : ℚ) = m * 2 ^ ((s : ℤ) - t) := by
    rw [zpow_sub₀ two_ne_zero, zpow_natCast, zpow_natCast]
    push_cast
    ring
  have hpos : (0 : ℚ) < m * 2 ^ ((s : ℤ) - t) := by positivity
  have hshift (n : ℕ) : ((2 : ℕ) : ℚ) ^ ((n : ℤ) + s - t) = 2 ^ n * 2 ^ ((s : ℤ) - t) := by
    rw [← zpow_natCast, ← zpow_add₀ two_ne_zero]
    push_cast
    congr 1
    ring
  rw [floorLog2_eq_log (by positivity) (by positivity), hq]
  apply le_antisymm
  · have h : (m : ℚ) < 2 ^ (m.log2 + 1) := by exact_mod_cast Nat.lt_log2_self
    have hlt : Int.log 2 (m * 2 ^ ((s : ℤ) - t) : ℚ) < ((m.log2 + 1 : ℕ) : ℤ) + s - t := by
      rw [← Int.lt_zpow_iff_log_lt one_lt_two hpos, hshift]
      gcongr
    push_cast at hlt
    omega
  · have h : (2 : ℚ) ^ m.log2 ≤ m := by exact_mod_cast Nat.log2_self_le hm.ne'
    rw [← Int.zpow_le_iff_le_log one_lt_two hpos, hshift]
    gcongr

/-- Every finite magnitude is nearest to its own number. -/
theorem nearestMagnitude_self {b : ℕ} (hb : b < infinity) :
    nearestMagnitude (significand b * 2 ^ scale b) (2 ^ 1074) = b := by
  rcases Nat.eq_zero_or_pos b with rfl | hpos
  · simp [nearestMagnitude, significand]
  have hb' : b < 2047 * 2 ^ 52 := hb
  have hs : 0 < significand b := by
    unfold significand
    split_ifs <;> omega
  have hlog : (significand b).log2 ≤ 52 ∧ (2 ^ 52 ≤ b → (significand b).log2 = 52) := by
    have hlt : significand b < 2 ^ 53 := by
      unfold significand
      split_ifs <;> omega
    have h₁ := (Nat.log2_lt hs.ne').2 hlt
    refine ⟨by omega, fun h => ?_⟩
    have h₂ : 52 ≤ (significand b).log2 := by
      rw [Nat.le_log2 hs.ne', significand, if_neg (by omega)]
      omega
    omega
  -- The grid around the number is its own: the exponent computed for the quotient is its scale.
  have he : max (floorLog2 (significand b * 2 ^ scale b) (2 ^ 1074) - 52) (-1074) =
      (scale b : ℤ) - 1074 := by
    rw [floorLog2_dyadic hs]
    rcases Nat.lt_or_ge b (2 ^ 52) with h | h
    · have : scale b = 0 := by
        unfold scale
        omega
      omega
    · have := hlog.2 h
      omega
  have hround : (if 0 ≤ (scale b : ℤ) - 1074
      then roundDiv (significand b * 2 ^ scale b) (2 ^ 1074 * 2 ^ ((scale b : ℤ) - 1074).toNat)
      else roundDiv (significand b * 2 ^ scale b * 2 ^ (-((scale b : ℤ) - 1074)).toNat) (2 ^ 1074)) =
      significand b := by
    split_ifs with h
    · rw [← pow_add, show 1074 + ((scale b : ℤ) - 1074).toNat = scale b by omega]
      exact roundDiv_mul_self _ (by positivity)
    · rw [mul_assoc, ← pow_add, show scale b + (-((scale b : ℤ) - 1074)).toNat = 1074 by omega]
      exact roundDiv_mul_self _ (by positivity)
  have hne : significand b * 2 ^ scale b ≠ 0 := by positivity
  have hsum : scale b * 2 ^ 52 + significand b = b := by
    unfold scale significand
    split_ifs <;> omega
  simp only [nearestMagnitude, hne, if_false, he, hround]
  rw [show ((scale b : ℤ) - 1074 + 1074).toNat = scale b by omega, hsum]
  exact min_eq_left hb.le

/-- From `2 ^ 1024` on every number rounds to infinity. -/
theorem nearestMagnitude_eq_infinity {num : ℕ} (h : 1024 ≤ num.log2) :
    nearestMagnitude num 1 = infinity := by
  have hpos : 0 < num := Nat.pos_of_ne_zero fun h0 => by simp [h0] at h
  have hlog : floorLog2 num 1 = num.log2 := by
    simpa using floorLog2_dyadic hpos 0 0
  obtain ⟨n, hn⟩ : ∃ n, num.log2 = n + 52 := ⟨num.log2 - 52, by omega⟩
  have he : max (floorLog2 num 1 - 52) (-1074) = n := by
    omega
  have hround : 2 ^ 52 ≤ roundDiv num (1 * 2 ^ n) := by
    refine le_trans ?_ (div_le_roundDiv _ _)
    rw [one_mul, Nat.le_div_iff_mul_le (Nat.two_pow_pos n), ← pow_add, Nat.add_comm, ← hn]
    exact Nat.log2_self_le hpos.ne'
  simp only [nearestMagnitude, hpos.ne', if_false, he, Int.toNat_natCast, Int.natCast_nonneg,
    if_true]
  apply min_eq_right
  unfold infinity
  omega

/-- Below half of the smallest step, `2 ^ (-1075)`, every number rounds to zero. -/
theorem nearestMagnitude_eq_zero {num den s : ℕ} (hs : 1075 ≤ s) (h : num * 2 ^ s < den) :
    nearestMagnitude num den = 0 := by
  rcases Nat.eq_zero_or_pos num with rfl | hn
  · simp [nearestMagnitude]
  have hd : 0 < den := Nat.zero_lt_of_lt h
  have hlog : floorLog2 num den < -s := by
    have hn' : (0 : ℚ) < num := by exact_mod_cast hn
    have hd' : (0 : ℚ) < den := by exact_mod_cast hd
    have h' : (2 : ℚ) ^ s * num < den := by
      rw [mul_comm]
      exact_mod_cast h
    rw [floorLog2_eq_log hn hd, ← Int.lt_zpow_iff_log_lt one_lt_two (div_pos hn' hd'),
      div_lt_iff₀ hd', zpow_neg, zpow_natCast, lt_inv_mul_iff₀ (by positivity)]
    exact h'
  have he : max (floorLog2 num den - 52) (-1074) = -1074 := by
    omega
  have hround : roundDiv (num * 2 ^ (-(-1074 : ℤ)).toNat) den = 0 := by
    have ht : (-(-1074 : ℤ)).toNat + 1 ≤ s := by omega
    generalize (-(-1074 : ℤ)).toNat = t at ht ⊢
    apply roundDiv_eq_zero
    calc 2 * (num * 2 ^ t) = num * 2 ^ (t + 1) := by ring
      _ ≤ num * 2 ^ s := by gcongr; norm_num
      _ < den := h
  simp only [nearestMagnitude, hn.ne', if_false, he, hround]
  rfl

/-! ### Decimal fractions -/

theorem two_pow_le_ten_pow (n : ℕ) : 2 ^ (3 * n) ≤ 10 ^ n := by
  rw [pow_mul]
  exact Nat.pow_le_pow_left (by norm_num) n

namespace Decimal

/-- The bounds that `magnitude` checks only save work: it is the nearest magnitude throughout. -/
theorem magnitude_of_nonneg {n : ℕ} {e : ℤ} (h : 0 ≤ e) :
    magnitude ⟨n, e⟩ = nearestMagnitude (n * 10 ^ e.toNat) 1 := by
  simp only [magnitude]
  split_ifs with h0 hbig hsmall
  · simp [h0, nearestMagnitude]
  · refine (nearestMagnitude_eq_infinity ?_).symm
    have hle : 2 ^ (3 * e.toNat) ≤ n * 10 ^ e.toNat :=
      (two_pow_le_ten_pow _).trans (Nat.le_mul_of_pos_left _ (Nat.pos_of_ne_zero h0))
    have := (Nat.le_log2 (by positivity)).2 hle
    omega
  · omega
  · rfl

theorem magnitude_of_neg {n : ℕ} {e : ℤ} (h : e < 0) :
    magnitude ⟨n, e⟩ = nearestMagnitude n (10 ^ (-e).toNat) := by
  simp only [magnitude]
  split_ifs with h0 hbig hsmall hnonneg
  · simp [h0, nearestMagnitude]
  · omega
  · obtain ⟨s, hs⟩ : ∃ s, 3 * (-e).toNat = n.log2 + 1 + s :=
      ⟨3 * (-e).toNat - (n.log2 + 1), by omega⟩
    refine (nearestMagnitude_eq_zero (by omega : 1075 ≤ s) ?_).symm
    calc n * 2 ^ s < 2 ^ (n.log2 + 1) * 2 ^ s := by
          gcongr
          exact Nat.lt_log2_self
      _ = 2 ^ (3 * (-e).toNat) := by rw [hs, pow_add _ (n.log2 + 1)]
      _ ≤ 10 ^ (-e).toNat := two_pow_le_ten_pow _
  · omega
  · rfl

/-- Zeros behind the digits can be moved into the exponent. -/
theorem magnitude_mul_pow (n k : ℕ) (e : ℤ) :
    magnitude ⟨n * 10 ^ k, e⟩ = magnitude ⟨n, e + k⟩ := by
  rcases lt_or_ge e 0 with he | he
  · rw [magnitude_of_neg he]
    rcases lt_or_ge (e + k) 0 with hk | hk
    · rw [magnitude_of_neg hk]
      apply nearestMagnitude_congr (by positivity) (by positivity)
      rw [mul_assoc, ← pow_add, show k + (-(e + k)).toNat = (-e).toNat by omega]
    · rw [magnitude_of_nonneg hk]
      apply nearestMagnitude_congr (by positivity) (by positivity)
      rw [mul_one, mul_assoc, ← pow_add, show (e + k).toNat + (-e).toNat = k by omega]
  · rw [magnitude_of_nonneg he, magnitude_of_nonneg (by omega), mul_assoc, ← pow_add,
      show k + e.toNat = (e + k).toNat by omega]

/-- A number is the one nearest to its exact decimal fraction. -/
theorem magnitude_exact {b : ℕ} (hb : b < infinity) : (exact b).magnitude = b := by
  have hself := nearestMagnitude_self hb
  rw [exact]
  split_ifs with h
  · rw [magnitude_of_nonneg le_rfl]
    refine (nearestMagnitude_congr (by positivity) (by positivity) ?_).trans hself
    rw [Int.toNat_zero, pow_zero, mul_one, mul_one, mul_assoc, ← pow_add,
      show scale b - 1074 + 1074 = scale b by omega]
  · rw [magnitude_of_neg (by simp; omega)]
    refine (nearestMagnitude_congr (by positivity) (by positivity) ?_).trans hself
    obtain ⟨k, hk⟩ : ∃ k, 1074 = scale b + k := ⟨1074 - scale b, by omega⟩
    rw [show 1074 - scale b = k by omega, show (-((scale b : ℤ) - 1074)).toNat = k by omega]
    rw [hk, pow_add, show 10 = 2 * 5 by rfl, mul_pow]
    ring

end Decimal

/-! ### The shortest decimal -/

theorem magnitude_of_gridPoint? {b cut : ℕ} {d p : Decimal} (h : gridPoint? b d cut = some p) :
    p.magnitude = b := by
  unfold gridPoint? at h
  dsimp only at h
  split_ifs at h with habove hbelow
  · rw [← Option.some.inj h]
    exact habove.1
  · rw [← Option.some.inj h]
    exact hbelow

theorem magnitude_coarsest {b : ℕ} {d : Decimal} (h : d.magnitude = b) (cut : ℕ) :
    (coarsest b d cut).magnitude = b := by
  induction cut with
  | zero => exact h
  | succ cut ih =>
    rw [coarsest]
    cases hp : gridPoint? b d (cut + 1) with
    | none => exact ih
    | some p => exact magnitude_of_gridPoint? hp

/-- The shortest decimal of a number rounds to that number. -/
theorem magnitude_shortest {b : ℕ} (hb : b < infinity) : (shortest b).magnitude = b :=
  magnitude_coarsest (Decimal.magnitude_exact hb) _

end Number
end FixpointLisp
