import Mathlib
import Reckoner.Binary64.Signed

/-!
# Bit patterns of numbers

The patterns up to that of infinity are the numbers that are neither undefined nor negative, which
is `exists_ofMagnitude_iff`. A number keeps every pattern except those of undefined results
(`toBits_ofBits`), of which there is only one (`isNaN_iff`). The finite numbers are those with a
pattern below that of infinity, but for the sign (`isFinite_iff`).
-/

namespace Reckoner.Binary64

open Float.Model (Format)
open Float.Model.UnpackedFloat

/-- The exponent field of a pattern. -/
theorem toNat_unpackExponent (bits : BitVec Format.binary64.numBits) :
    (unpackExponent bits).toNat = bits.toNat / binade % 2048 := by
  rw [unpackExponent_def, BitVec.extractLsb'_toNat, Nat.shiftRight_eq_div_pow]
  rfl

/-- The mantissa field of a pattern. -/
theorem toNat_unpackMantissa (bits : BitVec Format.binary64.numBits) :
    (unpackMantissa bits).toNat = bits.toNat % binade := by
  rw [unpackMantissa_def, BitVec.extractLsb'_toNat]
  rfl

/-- The patterns of undefined results have the exponent of infinity and some mantissa. -/
theorem isNaNBits_iff (bits : BitVec Format.binary64.numBits) :
    isNaNBits bits ↔ bits.toNat / binade % 2048 = 2047 ∧ bits.toNat % binade ≠ 0 := by
  unfold isNaNBits
  rw [decide_eq_true_iff, ← BitVec.toNat_inj, toNat_unpackExponent, ne_eq, ← BitVec.toNat_inj,
    toNat_unpackMantissa]
  rfl

/-- A pattern without a sign stands for an undefined result exactly if it is behind infinity. -/
theorem isNaNBits_iff_of_lt {bits : BitVec Format.binary64.numBits} (h : bits.toNat < signBit) :
    isNaNBits bits ↔ infinityBits < bits.toNat := by
  rw [isNaNBits_iff]
  unfold signBit at h
  unfold binade infinityBits
  omega

/-- A number keeps its pattern unless it is an undefined result. -/
theorem toBits_ofBits {bits : UInt64} (h : ¬ @isNaNBits Format.binary64 bits.toBitVec) :
    (Float.ofBits bits).toBits = bits := by
  show UInt64.ofBitVec (pack Format.binary64 (unpack Format.binary64 bits.toBitVec)) = bits
  rw [pack_unpack, if_neg h]

/-- Only one pattern stands for an undefined result. -/
theorem isNaN_iff (x : Float) : x.isNaN ↔ x.toBits.toBitVec = packedNaN Format.binary64 :=
  isNaN_unpack_iff_of_valid x.toModel.valid

/-- A pattern stands for a finite number exactly if it does not have the exponent of infinity. -/
theorem isFinite_unpack_iff (bits : BitVec Format.binary64.numBits) :
    (unpack Format.binary64 bits).isFinite ↔ bits.toNat / binade % 2048 ≠ 2047 := by
  have hexponent : unpackExponent bits = -BitVec.ofNat Format.binary64.exponentBits 1 ↔
      bits.toNat / binade % 2048 = 2047 := by
    rw [← BitVec.toNat_inj, toNat_unpackExponent]
    rfl
  rw [ne_eq, ← hexponent]
  unfold unpack
  dsimp only
  by_cases h : unpackExponent bits = -BitVec.ofNat Format.binary64.exponentBits 1
  · rw [if_pos h]
    split <;> exact iff_of_false Bool.false_ne_true (not_not_intro h)
  · rw [if_neg h]
    split
    · split <;> exact iff_of_true rfl h
    · exact iff_of_true rfl h

/-- A number is finite exactly if its magnitude is below infinity. -/
theorem isFinite_iff (x : Float) : x.isFinite ↔ magnitude x < infinityBits := by
  show (unpack Format.binary64 x.toBits.toBitVec).isFinite ↔ _
  have hlt := x.toBits.toNat_lt
  have hbits : x.toBits.toBitVec.toNat = x.toBits.toNat := rfl
  rw [isFinite_unpack_iff, hbits]
  unfold magnitude signBit binade infinityBits
  omega

/-- A number with a magnitude behind infinity is the undefined result. -/
theorem eq_undefined_of_lt {x : Float} (h : infinityBits < magnitude x) : x = undefined := by
  have hlt := x.toBits.toNat_lt
  have hbits : x.toBits.toBitVec.toNat = x.toBits.toNat := rfl
  have hpattern : @isNaNBits Format.binary64 x.toBits.toBitVec := by
    rw [isNaNBits_iff, hbits]
    unfold magnitude signBit infinityBits at h
    unfold binade
    omega
  obtain ⟨hexponent, hmantissa⟩ := of_decide_eq_true hpattern
  have hnan : x.toBits.toBitVec = packedNaN Format.binary64 :=
    x.toModel.valid.eq_packedNaN hexponent hmantissa
  have hvalue : x.toBits = 0x7FF8000000000000 := by
    rw [← UInt64.toBitVec_inj, hnan]
    decide
  rw [undefined, ← hvalue, Float.ofBits_toBits]

/-- A magnitude up to infinity is the pattern of its number. -/
theorem toNat_toBits_ofMagnitude {bits : Nat} (h : bits ≤ infinityBits) :
    (ofMagnitude false bits).toBits.toNat = bits := by
  have hbits : (UInt64.ofNat bits).toNat = bits := by
    rw [UInt64.toNat_ofNat']
    unfold infinityBits at h
    omega
  have hdefined : ¬ @isNaNBits Format.binary64 (UInt64.ofNat bits).toBitVec := by
    have hlt : (UInt64.ofNat bits).toBitVec.toNat < signBit := by
      show (UInt64.ofNat bits).toNat < signBit
      rw [hbits]
      unfold infinityBits at h
      unfold signBit
      omega
    rw [isNaNBits_iff_of_lt hlt]
    show ¬ infinityBits < (UInt64.ofNat bits).toNat
    omega
  show (Float.ofBits (UInt64.ofNat bits)).toBits.toNat = bits
  rw [toBits_ofBits hdefined, hbits]

/-- A number has the magnitude that it is made of. -/
theorem magnitude_ofMagnitude {bits : Nat} (h : bits ≤ infinityBits) :
    magnitude (ofMagnitude false bits) = bits := by
  rw [magnitude, toNat_toBits_ofMagnitude h]
  unfold infinityBits at h
  unfold signBit
  omega

/-- The numbers that are neither undefined nor negative are the magnitudes up to infinity. -/
theorem exists_ofMagnitude_iff {x : Float} :
    x.isNaN = false ∧ isNegative x = false ↔ ∃ bits ≤ infinityBits, x = ofMagnitude false bits := by
  constructor
  · rintro ⟨hdefined, hsign⟩
    have hlt : x.toBits.toBitVec.toNat < signBit := by simpa [isNegative] using hsign
    refine ⟨x.toBits.toNat, ?_, ?_⟩
    · by_contra hgt
      -- a pattern behind infinity can only be that of the undefined results
      have hbits := (isNaNBits_iff_of_lt hlt).2 (Nat.lt_of_not_le hgt)
      obtain ⟨hexponent, hmantissa⟩ := of_decide_eq_true hbits
      have hnan := (isNaN_iff x).2 (x.toModel.valid.eq_packedNaN hexponent hmantissa)
      rw [hdefined] at hnan
      cases hnan
    · show x = Float.ofBits (UInt64.ofNat x.toBits.toNat)
      rw [UInt64.ofNat_toNat, Float.ofBits_toBits]
  · rintro ⟨bits, hle, rfl⟩
    have hbits := toNat_toBits_ofMagnitude hle
    constructor
    · rw [Bool.eq_false_iff, ne_eq, isNaN_iff, ← BitVec.toNat_inj]
      show ¬ (ofMagnitude false bits).toBits.toNat = _
      rw [hbits]
      have hnan : (packedNaN Format.binary64).toNat = 0x7FF8000000000000 := by decide
      rw [hnan]
      unfold infinityBits at hle
      omega
    · unfold isNegative
      rw [hbits]
      unfold infinityBits at hle
      unfold signBit
      rw [decide_eq_false_iff_not]
      omega

end Reckoner.Binary64
