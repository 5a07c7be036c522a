import Formula.Binary64
import Mathlib

/-! # The bits of a number

The sign, the exponent field and the fraction of a number are read off its bits by division. So the
magnitude bits tell whether a number is finite (`isFinite_eq_true_iff`), and every pattern up to
infinity is that of a number (`toBits_ofMagnitudeBits`). -/

namespace Formula.Binary64

open Float.Model (Format UnpackedFloat)
open Float.Model.UnpackedFloat

theorem leadingBit_eq : leadingBit = 4503599627370496 := rfl

theorem signBit_eq : signBit = 9223372036854775808 := rfl

theorem infinityBits_eq : infinityBits = 9218868437227405312 := rfl

/-! ## Fields -/

theorem toNat_unpackExponent (b : BitVec 64) :
    (@unpackExponent Format.binary64 b).toNat = b.toNat / 2 ^ 52 % 2 ^ 11 := by
  simp [unpackExponent, Nat.shiftRight_eq_div_pow]

theorem toNat_unpackMantissa (b : BitVec 64) :
    (@unpackMantissa Format.binary64 b).toNat = b.toNat % 2 ^ 52 := by
  simp [unpackMantissa]

theorem unpackExponent_eq_iff (b : BitVec 64) :
    @unpackExponent Format.binary64 b = -1#11 ↔
      infinityBits ≤ b.toNat % signBit := by
  rw [← BitVec.toNat_inj, toNat_unpackExponent, infinityBits_eq, signBit_eq]
  have := b.isLt
  simp only [BitVec.toNat_neg, BitVec.toNat_ofNat]
  omega

theorem unpackMantissa_eq_zero_iff (b : BitVec 64) :
    @unpackMantissa Format.binary64 b = 0#52 ↔ b.toNat % leadingBit = 0 := by
  rw [← BitVec.toNat_inj, toNat_unpackMantissa, leadingBit_eq]
  simp

/-! ## What kind of number it is -/

/-- The largest exponent field is that of the numbers which are not finite. -/
theorem isFinite_eq_true_iff (x : Float) : x.isFinite = true ↔ magnitudeBits x < infinityBits := by
  have hexponent := unpackExponent_eq_iff x.toBits.toBitVec
  change (unpack Format.binary64 x.toBits.toBitVec).isFinite = true ↔
    x.toBits.toBitVec.toNat % signBit < infinityBits
  unfold unpack
  dsimp only
  split
  · rename_i h
    have hle := hexponent.mp h
    split <;> simpa [UnpackedFloat.isFinite] using hle
  · rename_i h
    have hlt := Nat.lt_of_not_le fun hle => h (hexponent.mpr hle)
    split
    · split <;> simpa [UnpackedFloat.isFinite] using hlt
    · simpa [UnpackedFloat.isFinite] using hlt

theorem isInf_eq_true_iff (x : Float) : x.isInf = true ↔ magnitudeBits x = infinityBits := by
  have hexponent := unpackExponent_eq_iff x.toBits.toBitVec
  have hmantissa := unpackMantissa_eq_zero_iff x.toBits.toBitVec
  have hfields : x.toBits.toBitVec.toNat % leadingBit = 0 ∧
      infinityBits ≤ x.toBits.toBitVec.toNat % signBit ↔
        x.toBits.toBitVec.toNat % signBit = infinityBits := by
    rw [leadingBit_eq, infinityBits_eq, signBit_eq]
    omega
  change (unpack Format.binary64 x.toBits.toBitVec).isInf = true ↔
    x.toBits.toBitVec.toNat % signBit = infinityBits
  rw [← hfields, ← hexponent, ← hmantissa]
  unfold unpack
  dsimp only
  split
  · rename_i h
    split
    · rename_i hzero
      simpa [UnpackedFloat.isInf, h] using hzero
    · rename_i hzero
      simpa [UnpackedFloat.isInf, h] using hzero
  · rename_i h
    refine iff_of_false ?_ fun hboth => h hboth.2
    split
    · split <;> simp [UnpackedFloat.isInf]
    · simp [UnpackedFloat.isInf]

theorem isNaN_eq_true_iff (x : Float) : x.isNaN = true ↔ infinityBits < magnitudeBits x := by
  have hfinite := isFinite_eq_true_iff x
  have hinf := isInf_eq_true_iff x
  have hkinds : x.isNaN = true ↔ ¬ x.isFinite = true ∧ ¬ x.isInf = true := by
    change x.toModel.unpack.isNaN = true ↔
      ¬ x.toModel.unpack.isFinite = true ∧ ¬ x.toModel.unpack.isInf = true
    cases x.toModel.unpack <;>
      simp [UnpackedFloat.isNaN, UnpackedFloat.isFinite, UnpackedFloat.isInf]
  rw [hkinds, hfinite, hinf]
  omega

/-! ## Patterns of numbers -/

/-- A pattern that stands for a number comes back from it. -/
theorem pack_unpack_of_le {b : BitVec 64} (h : b.toNat % signBit ≤ infinityBits) :
    pack Format.binary64 (unpack Format.binary64 b) = b := by
  have hnumber : ¬ @isNaNBits Format.binary64 b = true := by
    simp only [isNaNBits, decide_eq_true_eq, not_and, not_not]
    intro hlast
    have hle := (unpackExponent_eq_iff b).mp hlast
    rw [unpackMantissa_eq_zero_iff]
    rw [leadingBit_eq, infinityBits_eq, signBit_eq] at *
    omega
  exact (@pack_unpack Format.binary64 b (by decide)).trans (if_neg hnumber)

theorem toBits_ofBits {b : UInt64} (h : b.toNat % signBit ≤ infinityBits) :
    (Float.ofBits b).toBits = b :=
  congrArg UInt64.ofBitVec (pack_unpack_of_le h)

/-! ## Magnitudes -/

variable {bits : Nat}

/-- **Every pattern up to infinity is that of a number without a sign.** -/
theorem toBits_ofMagnitudeBits (h : bits ≤ infinityBits) :
    (ofMagnitudeBits bits).toBits.toNat = bits := by
  have hlt : bits < signBit := Nat.lt_of_le_of_lt h (by decide)
  have hbits : (UInt64.ofNat bits).toNat = bits := by
    rw [UInt64.toNat_ofNat']
    exact Nat.mod_eq_of_lt (Nat.lt_trans hlt (by decide))
  unfold ofMagnitudeBits
  rw [toBits_ofBits (by rw [hbits, Nat.mod_eq_of_lt hlt]; exact h), hbits]

@[simp] theorem magnitudeBits_ofMagnitudeBits (h : bits ≤ infinityBits) :
    magnitudeBits (ofMagnitudeBits bits) = bits := by
  rw [magnitudeBits, toBits_ofMagnitudeBits h,
    Nat.mod_eq_of_lt (Nat.lt_of_le_of_lt h (by decide))]

@[simp] theorem isNegative_ofMagnitudeBits (h : bits ≤ infinityBits) :
    isNegative (ofMagnitudeBits bits) = false := by
  rw [isNegative, toBits_ofMagnitudeBits h]
  exact decide_eq_false (Nat.not_le.mpr (Nat.lt_of_le_of_lt h (by decide)))

end Formula.Binary64
