import Mathlib
import Stencil.Proofs.Numbers.Nearest

/-!
# Numbers — finite numbers

The bits of a finite number without a sign are less than those of infinity, and they are zero when
the number is.  The fields of the bits are the ones that the model of numbers unpacks.
-/

namespace Stencil.Number
open Float.Model

/-! ### Fields -/

theorem toNat_unpackExponent (b : BitVec Format.binary64.numBits) :
    (UnpackedFloat.unpackExponent b).toNat = b.toNat / 2 ^ 52 % 2 ^ 11 := by
  simp [UnpackedFloat.unpackExponent, BitVec.extractLsb, BitVec.extractLsb',
    Nat.shiftRight_eq_div_pow]

/-! ### Finite numbers -/

theorem not_isNaN_of_isFinite {x : Float} (h : x.isFinite = true) : x.isNaN = false := by
  rw [Float.isFinite, Float.Model.isFinite] at h
  rw [Float.isNaN, Float.Model.isNaN]
  cases hu : x.toModel.unpack <;> rw [hu] at h <;> first | rfl | cases h

theorem not_isInf_of_isFinite {x : Float} (h : x.isFinite = true) : x.isInf = false := by
  rw [Float.isFinite, Float.Model.isFinite] at h
  rw [Float.isInf, Float.Model.isInf]
  cases hu : x.toModel.unpack <;> rw [hu] at h <;> first | rfl | cases h

/-- The exponent field of a finite number is not full. -/
theorem exponent_ne_of_isFinite {x : Float} (h : x.isFinite = true) :
    x.toBits.toNat / 2 ^ 52 % 2 ^ 11 ≠ 2047 := by
  intro hfull
  have hexponent : @UnpackedFloat.unpackExponent .binary64 x.toModel.toBits.toBitVec =
      -1#11 :=
    BitVec.eq_of_toNat_eq ((toNat_unpackExponent _).trans hfull)
  rw [Float.isFinite, Float.Model.isFinite, Float.Model.unpack, UnpackedFloat.unpack] at h
  simp only [hexponent, if_true] at h
  split at h <;> cases h

theorem lt_infiniteBits {x : Float} (h : x.isFinite = true) (hs : signBit x = false) :
    x.toBits.toNat < infiniteBits := by
  have hfull := exponent_ne_of_isFinite h
  have hsign : x.toBits.toNat < 2 ^ 63 := by
    simpa [signBit] using hs
  have hpow : Nat.pow 2 52 = 4503599627370496 := by norm_num
  rw [infiniteBits, hpow]
  omega

/-- What compares equal to zero and has no sign has no bits. -/
theorem bits_eq_zero_iff {x : Float} (hs : signBit x = false) :
    (x == 0) = true ↔ x.toBits.toNat = 0 := by
  constructor
  · intro h
    obtain ⟨-, -, rfl | ⟨rfl, -⟩ | ⟨rfl, -⟩⟩ := Float.beq_iff_ne_nan_and_eq.mp h
    · decide
    · decide
    · exact absurd hs (by decide)
  · intro h
    rw [Float.beq_iff_ne_nan_and_eq, ← @Float.toBits_inj x 0,
      UInt64.toNat_inj.mp (h.trans rfl : x.toBits.toNat = (0 : Float).toBits.toNat)]
    refine ⟨?_, by decide, .inl rfl⟩
    rintro rfl
    exact absurd h (by decide)

end Stencil.Number
