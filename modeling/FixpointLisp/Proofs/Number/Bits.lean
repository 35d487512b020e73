import FixpointLisp.Number.Decimal
import Mathlib

/-!
# Numbers and their bits

A number is determined by its sign and its magnitude, and there is only one number that is not a
number.

* `ofBits_toBits`: the bits of a number give it back. Packing undoes unpacking on every valid bit
  pattern (`pack_unpack`); validity rules out the other patterns that are no numbers.
* `ofMagnitude_parts`: so do its sign and magnitude.
* `eq_nan_of_infinity_lt`: a magnitude above infinity is that of `nan`.
-/

namespace FixpointLisp
namespace Number

open Float.Model Float.Model.UnpackedFloat

/-! ### Packing undoes unpacking -/

theorem toBitVec_ofBitVec_sign (v : BitVec 1) : (Sign.ofBitVec v).toBitVec = v := by
  revert v
  decide

/-- A bit pattern is put together again from its sign, exponent and mantissa. -/
theorem packComponents_parts (b : BitVec Format.binary64.numBits) :
    packComponents .binary64 (Sign.ofBitVec (unpackSign b)) (unpackExponent b) (unpackMantissa b)
      = b := by
  rw [packComponents, toBitVec_ofBitVec_sign]
  ext i hi
  simp [unpackSign, unpackExponent, unpackMantissa]
  grind

theorem pack_normal (s : Sign) {x : BitVec 11} (f : BitVec 52) (hx : x ≠ -1#11)
    (hm : 0 < (1#1 ++ f).toNat) :
    UnpackedFloat.pack .binary64 (.finite s (1#1 ++ f).toNat ((x.toNat : Int) - 1075) hm) =
      packComponents .binary64 s x f := by
  have hf := f.isLt
  have hval : (1#1 ++ f).toNat = 2 ^ 52 + f.toNat := by
    rw [BitVec.toNat_append, ← Nat.shiftLeft_add_eq_or_of_lt hf, Nat.shiftLeft_eq]
    rfl
  have hlog : (1#1 ++ f).toNat.log2 = 52 := by
    rw [hval, Nat.log2_eq_iff (by omega)]
    omega
  have hxn : x.toNat + 1 < 2 ^ 11 := by
    have := x.isLt
    have : x.toNat ≠ 2047 := fun h => hx (BitVec.eq_of_toNat_eq (by simpa using h))
    omega
  have hbias : ((x.toNat : Int) - 1075 + (Format.binary64.exponentBias : Nat) +
      (Format.binary64.mantissaBitsWithoutImplicit : Nat)).toNat = x.toNat := by
    simp only [Format.exponentBias]
    omega
  rw [UnpackedFloat.pack]
  simp only [hbias, hlog]
  rw [if_neg (by omega), if_pos (by rfl)]
  congr 1
  · simp
  · apply BitVec.eq_of_toNat_eq
    simpa [hval] using hf

theorem pack_subnormal (s : Sign) (f : BitVec 52) (hm : 0 < f.toNat) :
    UnpackedFloat.pack .binary64 (.finite s f.toNat (-1074) hm) =
      packComponents .binary64 s 0#11 f := by
  have hlog : f.toNat.log2 < 52 := (Nat.log2_lt hm.ne').2 f.isLt
  have hbias : ((-1074 : Int) + (Format.binary64.exponentBias : Nat) +
      (Format.binary64.mantissaBitsWithoutImplicit : Nat)).toNat = 1 := by
    decide
  have hbits : Format.binary64.mantissaBits = 53 := rfl
  rw [UnpackedFloat.pack]
  simp only [hbias, hbits]
  rw [if_neg (by decide), if_neg (by omega), BitVec.ofNat_toNat, BitVec.setWidth_eq]

/-- Packing undoes unpacking on a valid bit pattern. -/
theorem pack_unpack {b : BitVec Format.binary64.numBits} (h : Format.binary64.Valid b) :
    UnpackedFloat.pack .binary64 (UnpackedFloat.unpack .binary64 b) = b := by
  have parts := packComponents_parts b
  rw [UnpackedFloat.unpack]
  dsimp only
  split_ifs with hinf hzero hsub hnil
  · rw [hinf, hzero] at parts
    exact parts
  · exact (h.eq_packedNaN hinf hzero).symm
  · rw [hsub, hnil] at parts
    exact parts
  · rw [hsub] at parts ⊢
    exact (pack_subnormal _ _ _).trans parts
  · exact (pack_normal _ _ hinf _).trans parts

/-! ### Sign and magnitude -/

/-- The bits of a number give it back. -/
theorem ofBits_toBits (x : Float) : Float.ofBits x.toBits = x := by
  obtain ⟨bits, valid⟩ := x
  have h := pack_unpack valid
  simp only [Float.ofBits, Float.toBits, Float.Model.ofBits, Float.Model.pack, h]

theorem toNat_unpackExponent (b : BitVec Format.binary64.numBits) :
    (unpackExponent b).toNat = b.toNat / 2 ^ 52 % 2 ^ 11 := by
  simp [unpackExponent, Nat.shiftRight_eq_div_pow]

theorem toNat_unpackMantissa (b : BitVec Format.binary64.numBits) :
    (unpackMantissa b).toNat = b.toNat % 2 ^ 52 := by
  simp [unpackMantissa]

/-- Only `nan` has a magnitude above infinity. -/
theorem eq_nan_of_infinity_lt {x : Float} (h : infinity < magnitude x) : x = nan := by
  rw [← ofBits_toBits x, nan]
  obtain ⟨⟨bits, valid⟩⟩ := x
  have hlt : bits.toBitVec.toNat < 2 ^ 64 := bits.toBitVec.isLt
  have hbig : 0x7FF0000000000000 < bits.toBitVec.toNat % 2 ^ 63 := h
  have hexp : @unpackExponent .binary64 bits.toBitVec = -1#11 := by
    apply BitVec.eq_of_toNat_eq
    rw [toNat_unpackExponent]
    show _ = 2047
    omega
  have hman : @unpackMantissa .binary64 bits.toBitVec ≠ 0#52 := by
    intro h0
    have hz : bits.toBitVec.toNat % 2 ^ 52 = 0 := by
      rw [← toNat_unpackMantissa, h0]
      rfl
    have := congrArg BitVec.toNat hexp
    rw [toNat_unpackExponent] at this
    omega
  have hbits := valid.eq_packedNaN hexp hman
  congr 1
  exact UInt64.toBitVec_inj.1 hbits

/-- The sign and the magnitude of a number give it back. -/
theorem ofMagnitude_parts (x : Float) : ofMagnitude (isNegative x) (magnitude x) = x := by
  have hlt : x.toBits.toNat < 2 ^ 64 := x.toBits.toNat_lt
  have hbits : (if isNegative x then 2 ^ 63 + magnitude x else magnitude x) = x.toBits.toNat := by
    simp only [isNegative, magnitude, decide_eq_true_eq]
    split <;> omega
  rw [ofMagnitude, hbits, UInt64.ofNat_toNat, ofBits_toBits]

end Number
end FixpointLisp
