import Mathlib
import Stencil.Proofs.Numbers.Numeral

/-!
# Numbers — signs and order

A finite number is a sign and a magnitude.  Taking the sign away keeps the magnitude, and putting it
back gives the number (`withSign_abs`).  Numbers without a sign are ordered as their bits are
(`lt_iff_bits`, `le_iff_bits`): the exponent stands before the mantissa there, and the exponents of
two magnitudes are equal or the greater one makes up for any mantissa.  Rounding gives no signs and
nothing undefined (`nearest_rounded`).

The fields of the bits are read as the model of numbers unpacks them.
-/

namespace Stencil.Number
open Float.Model Float.Model.UnpackedFloat

/-! ### Fields -/

theorem toNat_unpackMantissa (b : BitVec Format.binary64.numBits) :
    (unpackMantissa b).toNat = b.toNat % 2 ^ 52 := by
  simp [unpackMantissa, BitVec.extractLsb, BitVec.extractLsb']

theorem toNat_unpackSign (b : BitVec Format.binary64.numBits) :
    (unpackSign b).toNat = b.toNat / 2 ^ 63 := by
  have hlt : b.toNat < 2 ^ 64 := b.isLt
  simp [unpackSign, BitVec.extractLsb, BitVec.extractLsb', Nat.shiftRight_eq_div_pow]
  omega

theorem toNat_packComponents (s : Sign) (e : BitVec 11) (m : BitVec 52) :
    (packComponents .binary64 s e m).toNat =
      s.toBitVec.toNat * 2 ^ 63 + e.toNat * 2 ^ 52 + m.toNat := by
  have hexponent := Nat.two_pow_add_eq_or_of_lt e.isLt (a := s.toBitVec.toNat)
  have hmantissa := Nat.two_pow_add_eq_or_of_lt m.isLt (a := s.toBitVec.toNat * 2 ^ 11 ||| e.toNat)
  rw [show packComponents .binary64 s e m = s.toBitVec ++ e ++ m from rfl, BitVec.toNat_append,
    BitVec.toNat_append, Nat.shiftLeft_eq, Nat.shiftLeft_eq, Nat.mul_comm _ (2 ^ 52), ← hmantissa,
    Nat.mul_comm _ (2 ^ 11), ← hexponent]
  ring

theorem ofBitVec_unpackSign (x : Float) :
    Sign.ofBitVec (@unpackSign .binary64 x.toModel.toBits.toBitVec) =
      if signBit x then .negative else .positive := by
  have hlt : x.toBits.toNat < 2 ^ 64 := x.toBits.toBitVec.isLt
  have hsign := toNat_unpackSign x.toModel.toBits.toBitVec
  rw [show x.toModel.toBits.toBitVec.toNat = x.toBits.toNat from rfl] at hsign
  simp only [Sign.ofBitVec, signBit, decide_eq_true_eq, Nat.pow_eq]
  by_cases hs : 2 ^ 63 ≤ x.toBits.toNat
  · rw [if_pos hs, if_neg]
    intro hzero
    rw [hzero] at hsign
    simp at hsign
    omega
  · rw [if_neg hs, if_pos]
    apply BitVec.eq_of_toNat_eq
    rw [hsign]
    simp
    omega

theorem unpackExponent_ne {x : Float} (h : x.isFinite = true) :
    @unpackExponent .binary64 x.toModel.toBits.toBitVec ≠ -1#11 := by
  intro hfull
  have hexponent := toNat_unpackExponent x.toModel.toBits.toBitVec
  rw [hfull] at hexponent
  exact exponent_ne_of_isFinite h hexponent.symm

/-! ### Signs -/

/-- An unpacked number with the given sign. -/
def signed (s : Sign) : UnpackedFloat → UnpackedFloat
  | .infinity _ => .infinity s
  | .notANumber => .notANumber
  | .zero _ => .zero s
  | .finite _ m e h => .finite s m e h

theorem abs_eq_signed (u : UnpackedFloat) : u.abs = signed .positive u := by
  cases u <;> rfl

theorem neg_signed (u : UnpackedFloat) : (signed .positive u).neg = signed .negative u := by
  cases u <;> rfl

theorem unpack_signed (s : Sign) (b : BitVec Format.binary64.numBits) :
    UnpackedFloat.unpack .binary64
        (packComponents .binary64 s (unpackExponent b) (unpackMantissa b)) =
      signed s (UnpackedFloat.unpack .binary64 b) := by
  simp only [UnpackedFloat.unpack, unpackExponent_packComponents, unpackMantissa_packComponents,
    unpackSign_packComponents, Sign.ofBitVec_toBitVec]
  by_cases he : unpackExponent b = -1#11
  · by_cases hm : unpackMantissa b = 0#52 <;> simp [he, hm, signed]
  · by_cases hz : unpackExponent b = 0#11
    · by_cases hm : unpackMantissa b = 0#52 <;> simp [hz, hm, signed]
    · simp only [if_neg he, if_neg hz, signed]

/-- Another sign changes no other field. -/
theorem pack_signed (s : Sign) {b : BitVec Format.binary64.numBits}
    (he : unpackExponent b ≠ -1#11) :
    UnpackedFloat.pack .binary64 (signed s (UnpackedFloat.unpack .binary64 b)) =
      packComponents .binary64 s (unpackExponent b) (unpackMantissa b) := by
  rw [← unpack_signed]
  refine pack_unpack_of_valid ⟨fun h _ => ?_⟩
  rw [unpackExponent_packComponents] at h
  exact absurd h he

section
variable {x : Float} (h : x.isFinite = true)
include h

theorem toBits_abs : x.abs.toBits.toBitVec = packComponents .binary64 .positive
    (unpackExponent x.toModel.toBits.toBitVec) (unpackMantissa x.toModel.toBits.toBitVec) := by
  rw [← pack_signed .positive (unpackExponent_ne h), ← abs_eq_signed]
  rfl

theorem unpack_abs : x.abs.toModel.unpack = signed .positive x.toModel.unpack := by
  rw [Float.Model.unpack, show x.abs.toModel.toBits.toBitVec = _ from toBits_abs h, unpack_signed]
  rfl

theorem toBits_neg_abs : (-x.abs).toBits.toBitVec = packComponents .binary64 .negative
    (unpackExponent x.toModel.toBits.toBitVec) (unpackMantissa x.toModel.toBits.toBitVec) := by
  rw [show (-x.abs).toBits.toBitVec = UnpackedFloat.pack .binary64 x.abs.toModel.unpack.neg from rfl,
    unpack_abs h, neg_signed]
  exact pack_signed .negative (unpackExponent_ne h)

/-- **A finite number is its magnitude with its sign.** -/
theorem withSign_abs : withSign (signBit x) x.abs = x := by
  have hsplit := @packComponents_unpackSign_unpackExponent_unpackMantissa .binary64
    x.toModel.toBits.toBitVec
  rw [ofBitVec_unpackSign] at hsplit
  rw [← Float.toBits_inj, ← UInt64.toBitVec_inj]
  cases hs : signBit x with
  | true =>
      rw [hs] at hsplit
      exact (toBits_neg_abs h).trans hsplit
  | false =>
      rw [hs] at hsplit
      exact (toBits_abs h).trans hsplit

theorem toNat_abs : x.abs.toBits.toNat = x.toBits.toNat % 2 ^ 63 := by
  have hlt : x.toBits.toNat < 2 ^ 64 := x.toBits.toBitVec.isLt
  have hfields := congrArg BitVec.toNat (toBits_abs h)
  rw [toNat_packComponents, toNat_unpackExponent, toNat_unpackMantissa] at hfields
  refine Eq.trans hfields ?_
  rw [show x.toModel.toBits.toBitVec.toNat = x.toBits.toNat from rfl,
    show Sign.positive.toBitVec.toNat = 0 from rfl]
  omega

theorem signBit_abs : signBit x.abs = false := by
  rw [signBit, toNat_abs h]
  simp only [Nat.pow_eq, decide_eq_false_iff_not]
  omega

theorem ofFloat_abs : Dyadic.ofFloat x.abs = Dyadic.ofFloat x := by
  have hexponent : x.toBits.toNat % 2 ^ 63 / 2 ^ 52 % 2 ^ 11 = x.toBits.toNat / 2 ^ 52 % 2 ^ 11 := by
    omega
  have hfraction : x.toBits.toNat % 2 ^ 63 % 2 ^ 52 = x.toBits.toNat % 2 ^ 52 := by omega
  simp only [Dyadic.ofFloat, Dyadic.ofBits, toNat_abs h, Nat.pow_eq, hexponent, hfraction]

theorem isFinite_abs : x.abs.isFinite = true := by
  have hunpack := unpack_abs h
  rw [Float.isFinite, Float.Model.isFinite] at h ⊢
  rw [hunpack]
  cases hu : x.toModel.unpack <;> rw [hu] at h <;> first | rfl | cases h

/-- A number is equal to zero when it has no bits but its sign. -/
theorem beq_zero_iff : (x == 0) = true ↔ x.abs.toBits.toNat = 0 := by
  constructor
  · intro hx
    obtain ⟨-, -, rfl | ⟨rfl, -⟩ | ⟨rfl, -⟩⟩ := Float.beq_iff_ne_nan_and_eq.mp hx <;> decide
  · intro hbits
    have habs : x.abs = 0 := Float.toBits_inj.mp (UInt64.toNat_inj.mp hbits)
    rw [← withSign_abs h, habs]
    cases signBit x <;> decide

end

/-! ### Order -/

/-- What a finite number without a sign unpacks to. -/
theorem unpack_of_isFinite {x : Float} (h : x.isFinite = true) (hs : signBit x = false) :
    ((Dyadic.ofFloat x).mantissa = 0 ∧ x.toModel.unpack = .zero .positive) ∨
    ∃ hm, x.toModel.unpack =
      .finite .positive (Dyadic.ofFloat x).mantissa (Dyadic.ofFloat x).exponent hm := by
  have hexponent := toNat_unpackExponent x.toModel.toBits.toBitVec
  have hmantissa := toNat_unpackMantissa x.toModel.toBits.toBitVec
  have hsign := ofBitVec_unpackSign x
  have hfull := unpackExponent_ne h
  obtain ⟨e, he⟩ : ∃ e, e = @unpackExponent .binary64 x.toModel.toBits.toBitVec := ⟨_, rfl⟩
  obtain ⟨m, hm⟩ : ∃ m, m = @unpackMantissa .binary64 x.toModel.toBits.toBitVec := ⟨_, rfl⟩
  rw [show x.toModel.toBits.toBitVec.toNat = x.toBits.toNat from rfl, ← he] at hexponent
  rw [show x.toModel.toBits.toBitVec.toNat = x.toBits.toNat from rfl, ← hm] at hmantissa
  rw [hs, if_neg Bool.false_ne_true] at hsign
  rw [← he] at hfull
  have hdyadic : Dyadic.ofFloat x =
      if e = 0#11 then ⟨m.toNat, -1074⟩ else ⟨2 ^ 52 + m.toNat, (e.toNat : ℤ) - 1075⟩ := by
    have hzero : e.toNat = 0 ↔ e = 0#11 :=
      ⟨fun h => BitVec.eq_of_toNat_eq h, fun h => by rw [h]; rfl⟩
    simp only [Dyadic.ofFloat, Dyadic.ofBits, Nat.pow_eq, ← hexponent, ← hmantissa, hzero]
  rw [Float.Model.unpack, UnpackedFloat.unpack]
  simp only [hsign, ← he, ← hm, if_neg hfull]
  by_cases hz : e = 0#11
  · -- zero and the numbers below the least normal one have no leading bit
    rw [if_pos hz] at hdyadic
    rw [hdyadic]
    by_cases hzm : m = 0#52
    · left
      simp [hz, hzm]
    · right
      have hpos : 0 < m.toNat := by
        simpa [BitVec.toNat_pos, BitVec.pos_iff_ne_zero] using hzm
      refine ⟨hpos, ?_⟩
      simp [hz, hzm, Format.exponentBias]
  · right
    rw [if_neg hz] at hdyadic
    rw [hdyadic]
    refine ⟨by positivity, ?_⟩
    have happend : (1#1 ++ m).toNat = 2 ^ 52 + m.toNat := by
      have := Nat.two_pow_add_eq_or_of_lt m.isLt (a := 1)
      rw [BitVec.toNat_append, Nat.shiftLeft_eq]
      simpa using this.symm
    simp only [if_neg hz, happend]
    rfl

/-- **Magnitudes are ordered by their exponents first**, and so are their bits. -/
theorem compare_ofBits {a b : ℕ} (ha : a < infiniteBits) (hb : b < infiniteBits) :
    (compare (Dyadic.ofBits a).exponent (Dyadic.ofBits b).exponent).then
      (compare (Dyadic.ofBits a).mantissa (Dyadic.ofBits b).mantissa) = compare a b := by
  have hsumA := Dyadic.sum_ofBits ha
  have hsumB := Dyadic.sum_ofBits hb
  obtain ⟨hleastA, -, hsizeA, hfullA⟩ := Dyadic.finite_ofBits ha
  obtain ⟨hleastB, -, hsizeB, hfullB⟩ := Dyadic.finite_ofBits hb
  rcases lt_trichotomy (Dyadic.ofBits a).exponent (Dyadic.ofBits b).exponent with h | h | h
  · rw [compare_lt_iff_lt.mpr h, compare_lt_iff_lt.mpr (show a < b by omega)]
    rfl
  · rw [compare_eq_iff_eq.mpr h, Ordering.eq_then]
    rcases lt_trichotomy (Dyadic.ofBits a).mantissa (Dyadic.ofBits b).mantissa with hm | hm | hm
    · rw [compare_lt_iff_lt.mpr hm, compare_lt_iff_lt.mpr (show a < b by omega)]
    · rw [compare_eq_iff_eq.mpr hm, compare_eq_iff_eq.mpr (show a = b by omega)]
    · rw [compare_gt_iff_gt.mpr hm, compare_gt_iff_gt.mpr (show a > b by omega)]
  · rw [compare_gt_iff_gt.mpr h, compare_gt_iff_gt.mpr (show a > b by omega)]
    rfl

theorem Dyadic.mantissa_pos_iff {bits : ℕ} (h : bits < infiniteBits) :
    0 < (Dyadic.ofBits bits).mantissa ↔ 0 < bits := by
  constructor
  · intro hpos
    rcases Nat.eq_zero_or_pos bits with rfl | hbits
    · exact absurd hpos (by decide)
    · exact hbits
  · intro hpos
    exact Nat.pos_of_ne_zero (Dyadic.mantissa_ne_zero h (Nat.ne_of_gt hpos))

section
variable {x y : Float} (hx : x.isFinite = true) (hy : y.isFinite = true) (hsx : signBit x = false)
  (hsy : signBit y = false)
include hx hy hsx hsy

/-- **Finite numbers without a sign compare as their bits do.** -/
theorem compare_unpack : x.toModel.unpack.compare y.toModel.unpack =
    some (compare x.toBits.toNat y.toBits.toNat) := by
  have hboundX := lt_infiniteBits hx hsx
  have hboundY := lt_infiniteBits hy hsy
  have hposX : 0 < (Dyadic.ofFloat x).mantissa ↔ 0 < x.toBits.toNat := Dyadic.mantissa_pos_iff hboundX
  have hposY : 0 < (Dyadic.ofFloat y).mantissa ↔ 0 < y.toBits.toNat := Dyadic.mantissa_pos_iff hboundY
  rcases unpack_of_isFinite hx hsx with ⟨hzeroX, hx⟩ | ⟨hmx, hx⟩
  · rcases unpack_of_isFinite hy hsy with ⟨hzeroY, hy⟩ | ⟨hmy, hy⟩
    · rw [hx, hy, compare_eq_iff_eq.mpr (show x.toBits.toNat = y.toBits.toNat by omega)]
      rfl
    · have := hposY.mp hmy
      rw [hx, hy, compare_lt_iff_lt.mpr (show x.toBits.toNat < y.toBits.toNat by omega)]
      rfl
  · have := hposX.mp hmx
    rcases unpack_of_isFinite hy hsy with ⟨hzeroY, hy⟩ | ⟨hmy, hy⟩
    · rw [hx, hy, compare_gt_iff_gt.mpr (show x.toBits.toNat > y.toBits.toNat by omega)]
      rfl
    · rw [hx, hy, ← compare_ofBits hboundX hboundY]
      rfl

theorem lt_iff_bits : x < y ↔ x.toBits.toNat < y.toBits.toNat := by
  have h : x < y ↔ (x.toModel.unpack.compare y.toModel.unpack == some .lt) = true := by
    show decide (x.toModel < y.toModel) = true ↔ _
    rw [decide_eq_true_eq]
    rfl
  rw [h, compare_unpack hx hy hsx hsy, beq_iff_eq, Option.some_inj, compare_lt_iff_lt]

theorem le_iff_bits : x ≤ y ↔ x.toBits.toNat ≤ y.toBits.toNat := by
  have h : x ≤ y ↔ (x.toModel.unpack.compare y.toModel.unpack).any (·.isLE) = true := by
    show decide (x.toModel ≤ y.toModel) = true ↔ _
    rw [decide_eq_true_eq]
    rfl
  rw [h, compare_unpack hx hy hsx hsy, Option.any_some, Nat.isLE_compare]

end

/-! ### Rounded numbers -/

theorem isFinite_of_unpackExponent_ne {x : Float}
    (h : @unpackExponent .binary64 x.toModel.toBits.toBitVec ≠ -1#11) : x.isFinite = true := by
  rw [Float.isFinite, Float.Model.isFinite, Float.Model.unpack, UnpackedFloat.unpack]
  simp only [if_neg h]
  by_cases hz : @unpackExponent .binary64 x.toModel.toBits.toBitVec = 0#11
  · by_cases hm : @unpackMantissa .binary64 x.toModel.toBits.toBitVec = 0#52 <;>
      simp [hz, hm, UnpackedFloat.isFinite]
  · simp only [if_neg hz, UnpackedFloat.isFinite]

section
variable {bits : ℕ} (h : bits < infiniteBits)
include h

theorem toBitVec_ofBits : (Float.ofBits (UInt64.ofNat bits)).toBits.toBitVec.toNat = bits ∧
    @unpackExponent .binary64 (Float.ofBits (UInt64.ofNat bits)).toModel.toBits.toBitVec ≠ -1#11 := by
  have hbits : bits < 2047 * 2 ^ 52 := h
  have htoNat : (UInt64.ofNat bits).toBitVec.toNat = bits :=
    UInt64.toNat_ofNat_of_lt' (hbits.trans (by decide))
  have hexponent : @unpackExponent .binary64 (UInt64.ofNat bits).toBitVec ≠ -1#11 := by
    intro hfull
    have := toNat_unpackExponent (UInt64.ofNat bits).toBitVec
    rw [hfull, htoNat] at this
    simp at this
    omega
  have hkept : (Float.ofBits (UInt64.ofNat bits)).toModel.toBits.toBitVec =
      (UInt64.ofNat bits).toBitVec :=
    pack_unpack_of_valid ⟨fun hfull _ => absurd hfull hexponent⟩
  exact ⟨(congrArg BitVec.toNat hkept).trans htoNat, hkept ▸ hexponent⟩

/-- The bits of a number that is made of bits. -/
theorem toNat_toBits_ofBits : (Float.ofBits (UInt64.ofNat bits)).toBits.toNat = bits :=
  (toBitVec_ofBits h).1

/-- Bits below those of infinity are the bits of a finite number without a sign. -/
theorem ofBits_finite : (Float.ofBits (UInt64.ofNat bits)).isFinite = true ∧
    signBit (Float.ofBits (UInt64.ofNat bits)) = false := by
  have hbits : bits < 2047 * 2 ^ 52 := h
  refine ⟨isFinite_of_unpackExponent_ne (toBitVec_ofBits h).2, ?_⟩
  simp only [signBit, toNat_toBits_ofBits h, Nat.pow_eq, decide_eq_false_iff_not]
  omega

end

/-- Numbers that rounding can give: finite ones without a sign, and infinity. -/
def Rounded (x : Float) : Prop :=
  x.isFinite = true ∧ signBit x = false ∨ x = infinity

theorem nearestBits_le (num den : ℕ) : nearestBits num den ≤ infiniteBits := by
  rw [nearestBits]
  by_cases hnum : num = 0
  · rw [if_pos hnum]
    exact Nat.zero_le _
  · rw [if_neg hnum]
    exact Nat.min_le_right _ _

theorem nearest_rounded (num den : ℕ) : Rounded (nearest num den) := by
  rw [nearest]
  rcases Nat.lt_or_eq_of_le (nearestBits_le num den) with hlt | heq
  · exact .inl (ofBits_finite hlt)
  · rw [heq]
    exact .inr rfl

theorem scaled_rounded (m : ℕ) (e : ℤ) : Rounded (scaled m e) := by
  rw [scaled]
  split
  · exact nearest_rounded 0 1
  · split
    · exact .inr rfl
    · exact nearest_rounded _ _

/-- What digits are read as. -/
theorem unsigned?_rounded {cs : List Char} {x : Float} (h : unsigned? cs = some x) : Rounded x := by
  have parts : ∀ {before after rest : List Char}, (if before.isEmpty && after.isEmpty then none
      else (exponent? rest).map fun e => scaled (value 10 (before ++ after)) (e - after.length)) =
        some x → Rounded x := by
    intro before after rest hx
    split at hx
    · cases hx
    · obtain ⟨e, -, rfl⟩ := Option.map_eq_some_iff.mp hx
      exact scaled_rounded _ _
  simp only [unsigned?] at h
  split at h
  · exact parts h
  · exact parts h

end Stencil.Number
