import Mathlib
import Stencil.Number.Whole
import Stencil.Proofs.Numbers.Fixed
import Stencil.Proofs.Numbers.Sizes

/-!
# Numbers — whole numbers

The whole part of a number is its exact value, rounded toward zero (`wholePart_of_isFinite`).

A natural up to 2^53 is a number exactly: rounding it changes nothing (`ofFloat_nearest`).  So its
whole part is the natural (`wholePart_ofNat`), and below 2^53 its text is the natural's digits
(`text_ofNat`).  The search for the shortest digits cannot end on another whole number, since no
other one rounds to it (`Dyadic.eq_of_admits`).

What compares equal to a natural has the same whole part and the same text.  Naturals from 2^53 on
may be rounded, but not to less than 2^53 (`le_wholePart_ofNat`).
-/

namespace Stencil.Number

/-! ### Whole parts -/

/-- What a finite number is, exactly. -/
def exact (x : Float) : ℚ :=
  if signBit x then -(Dyadic.ofFloat x).value else (Dyadic.ofFloat x).value

/-- Rounding toward zero. -/
def towardZero (q : ℚ) : ℤ :=
  if 0 ≤ q then ⌊q⌋ else ⌈q⌉

theorem towardZero_neg (q : ℚ) : towardZero (-q) = -towardZero q := by
  rcases lt_trichotomy q 0 with hq | rfl | hq
  · rw [towardZero, towardZero, if_pos (by linarith), if_neg (by linarith), Int.floor_neg]
  · simp [towardZero]
  · rw [towardZero, towardZero, if_neg (by linarith), if_pos hq.le, Int.ceil_neg]

theorem Dyadic.floor_eq (d : Dyadic) : (d.floor : ℤ) = towardZero d.value := by
  have hden : (d.quotient.2 : ℚ) ≠ 0 := by exact_mod_cast d.quotient_pos.ne'
  have hvalue : d.value = d.quotient.1 / d.quotient.2 := (eq_div_iff hden).mpr d.quotient_eq.symm
  rw [towardZero, if_pos (hvalue ▸ by positivity), hvalue, Rat.floor_natCast_div_natCast]
  rfl

/-- **The whole part of a finite number** is its value, rounded toward zero. -/
theorem wholePart_of_isFinite {x : Float} (h : x.isFinite = true) :
    wholePart x = .at (towardZero (exact x)) := by
  rw [wholePart, not_isNaN_of_isFinite h, not_isInf_of_isFinite h, exact]
  simp only [Bool.false_eq_true, if_false, Dyadic.floor_eq]
  split
  · rw [towardZero_neg]
  · rfl

theorem isNaN_or_isInf_or_isFinite (x : Float) :
    x.isNaN = true ∨ x.isInf = true ∨ x.isFinite = true := by
  rw [Float.isNaN, Float.isInf, Float.isFinite, Float.Model.isFinite, Float.Model.isNaN,
    Float.Model.isInf]
  cases x.toModel.unpack with
  | notANumber => exact .inl rfl
  | infinity _ => exact .inr (.inl rfl)
  | zero _ => exact .inr (.inr rfl)
  | finite _ _ _ _ => exact .inr (.inr rfl)

/-! ### Bits of magnitudes -/

/-- **Every finite magnitude is that of some bits.** -/
theorem Dyadic.Finite.exists_bits {d : Dyadic} (h : d.Finite) :
    ∃ bits < infiniteBits, Dyadic.ofBits bits = d := by
  obtain ⟨hleast, hgreatest, hsize, hfull⟩ := h
  obtain ⟨m, e⟩ := d
  simp only at *
  have hpow : Nat.pow 2 52 = 4503599627370496 := by norm_num
  have hfield : Nat.pow 2 11 = 2048 := by norm_num
  refine ⟨(e + 1074).toNat * 4503599627370496 + m, by rw [infiniteBits, hpow]; omega, ?_⟩
  have hbiased : ((e + 1074).toNat * 4503599627370496 + m) / 4503599627370496 =
      (e + 1074).toNat + m / 4503599627370496 := by omega
  have hfraction : ((e + 1074).toNat * 4503599627370496 + m) % 4503599627370496 =
      m % 4503599627370496 := by omega
  rw [Dyadic.ofBits, hpow, hfield, hbiased, hfraction]
  by_cases hm : m < 4503599627370496
  · obtain rfl : e = -1074 := by omega
    simp [Nat.div_eq_of_lt hm, Nat.mod_eq_of_lt hm]
  · have hone : m / 4503599627370496 = 1 := by omega
    rw [if_neg (by omega), hone]
    congr 1 <;> omega

/-- **A finite magnitude is not rounded.** -/
theorem ofFloat_nearest {d : Dyadic} (hd : d.Finite) (hm : d.mantissa ≠ 0) {num den : ℕ}
    (hden : 0 < den) (h : (num : ℚ) = d.value * den) :
    Dyadic.ofFloat (nearest num den) = d ∧ (nearest num den).isFinite = true ∧
      signBit (nearest num den) = false := by
  obtain ⟨bits, hbits, rfl⟩ := hd.exists_bits
  have hzero : bits ≠ 0 := by
    rintro rfl
    exact hm rfl
  rw [nearest, nearestBits_of_admits hbits hzero hden h (Dyadic.admits_self hm), Dyadic.ofFloat,
    toNat_toBits_ofBits hbits]
  exact ⟨rfl, ofBits_finite hbits⟩

/-! ### Magnitudes of naturals -/

/-- Naturals up to 2^53 are magnitudes, and below 2^53 their last place is not above the ones. -/
theorem Dyadic.exists_value_eq {n : ℕ} (hn : n ≠ 0) (h : n ≤ 2 ^ 53) :
    ∃ d : Dyadic, d.Finite ∧ d.mantissa ≠ 0 ∧ d.value = n ∧ (n < 2 ^ 53 → d.exponent ≤ 0) := by
  rcases Nat.lt_or_eq_of_le h with hlt | rfl
  · have hlow := Nat.log2_self_le hn
    have hhigh : n < 2 ^ (n.log2 + 1) := Nat.lt_log2_self
    have hlog : n.log2 ≤ 52 := by
      have := (Nat.pow_lt_pow_iff_right (show 1 < 2 by decide)).mp (hlow.trans_lt hlt)
      omega
    obtain ⟨k, hk⟩ := Nat.exists_eq_add_of_le hlog
    have hfull : 2 ^ 52 ≤ n * 2 ^ k := by
      calc 2 ^ 52 = 2 ^ n.log2 * 2 ^ k := by rw [← Nat.pow_add, ← hk]
        _ ≤ n * 2 ^ k := Nat.mul_le_mul_right _ hlow
    have hsize : n * 2 ^ k < 2 ^ 53 := by
      calc n * 2 ^ k < 2 ^ (n.log2 + 1) * 2 ^ k := Nat.mul_lt_mul_of_pos_right hhigh (by positivity)
        _ = 2 ^ 53 := by rw [← Nat.pow_add]; congr 1; omega
    refine ⟨⟨n * 2 ^ k, -k⟩, ⟨by simp only; omega, by simp only; omega, hsize, .inr hfull⟩,
      by simp only; omega, ?_, fun _ => by simp only; omega⟩
    simp only [Dyadic.value, Nat.cast_mul, Nat.cast_pow, Nat.cast_ofNat, zpow_neg, zpow_natCast]
    field_simp
  · refine ⟨⟨2 ^ 52, 1⟩, ⟨by decide, by decide, by decide, .inr (by decide)⟩, by decide, ?_,
      fun h => absurd h (Nat.lt_irrefl _)⟩
    norm_num [Dyadic.value]

section
variable {d : Dyadic} {n : ℕ}

/-- A magnitude that is a natural, as a quotient. -/
theorem Dyadic.quotient_of_value (h : d.value = n) : d.quotient.1 = n * d.quotient.2 := by
  have heq := d.quotient_eq
  rw [h] at heq
  exact_mod_cast heq

/-- **No other whole number rounds to a natural** whose last place is not above the ones. -/
theorem Dyadic.eq_of_admits (h : d.value = n) (he : d.exponent ≤ 0) {k : ℕ} (hk : d.Admits k) :
    k = n := by
  -- the bounds of the interval are counted in quarters `u` of the last place, and lie two of them away
  obtain ⟨u, hu⟩ : ∃ u : ℚ, u = 2 ^ (d.exponent - 2) := ⟨_, rfl⟩
  have hpos : 0 < u := hu ▸ two_zpow_pos _
  have hquarter : 4 * u ≤ 1 := by
    calc 4 * u = 2 ^ d.exponent := by
          rw [hu, show (4 : ℚ) = 2 ^ 2 by norm_num, ← two_zpow_add]
          congr 1
          omega
      _ ≤ 1 := zpow_le_one_of_nonpos₀ (by norm_num) he
  have hself : (n : ℚ) = 4 * d.mantissa * u := by
    rw [← h, Dyadic.value, hu, show d.exponent = d.exponent - 2 + (2 : ℕ) by omega, two_zpow_add]
    norm_num
    ring
  have hlow : (4 * d.mantissa : ℚ) - 2 ≤ d.interval.low := by
    have : 4 * d.mantissa ≤ d.interval.low + 2 := by
      simp only [Dyadic.interval]
      split <;> omega
    have : (4 * d.mantissa : ℚ) ≤ d.interval.low + 2 := by exact_mod_cast this
    linarith
  have hhigh : (d.interval.high : ℚ) = 4 * d.mantissa + 2 := by
    simp only [Dyadic.interval]
    push_cast
    rfl
  have hbelow := hk.low
  have habove := hk.high
  rw [← hu] at hbelow habove
  rw [hhigh] at habove
  have hnear : (n : ℚ) - 1 < k ∧ (k : ℚ) < n + 1 := by
    constructor <;> nlinarith
  have hleft : n < k + 1 := by exact_mod_cast (by linarith [hnear.1] : (n : ℚ) < k + 1)
  have hright : k < n + 1 := by exact_mod_cast hnear.2
  omega

/-- A natural itself is found among the whole numbers. -/
theorem Dyadic.readsBack_of_value (h : d.value = n) (he : d.exponent ≤ 0) (hm : d.mantissa ≠ 0) :
    d.readsBack 0 n = true := by
  obtain ⟨k, hk⟩ : ∃ k : ℕ, d.exponent = -k := ⟨(-d.exponent).toNat, by omega⟩
  have hmantissa : n * 2 ^ k = d.mantissa := by
    have : (n : ℚ) * 2 ^ k = d.mantissa := by
      rw [← h, Dyadic.value, hk, zpow_neg, zpow_natCast]
      field_simp
    exact_mod_cast this
  have hdown : (-(d.exponent - 2)).toNat = k + 2 := by omega
  have hup : (d.exponent - 2).toNat = 0 := by omega
  have hleft : n * Nat.pow 10 (0 : ℤ).toNat * Nat.pow 2 (k + 2) = 4 * d.mantissa := by
    rw [← hmantissa]
    simp only [Nat.pow_eq, Int.toNat_zero, pow_zero]
    ring
  have hbelow : d.interval.low < 4 * d.mantissa := by
    simp only [Dyadic.interval]
    split <;> omega
  have habove : 4 * d.mantissa < d.interval.high := by
    simp only [Dyadic.interval]
    omega
  simp only [Dyadic.readsBack, hdown, hup, hleft]
  simp [hbelow, habove]

/-- The place of the point of a natural. -/
theorem Dyadic.point_of_value (h : d.value = n) (hn : n ≠ 0) :
    d.point = (decimalDigits n).length := by
  have hden := d.quotient_pos
  have hnum := Dyadic.quotient_of_value h
  have hle : d.quotient.2 ≤ d.quotient.1 := by
    rw [hnum]
    exact Nat.le_mul_of_pos_left _ (Nat.pos_of_ne_zero hn)
  have hdiv : d.quotient.1 / d.quotient.2 = n := by
    rw [hnum, Nat.mul_div_cancel _ hden]
  simp only [Dyadic.point, if_pos hle, hdiv]

/-! ### Digits of naturals -/

theorem decimalDigits_mul_pow {m : ℕ} (hm : m ≠ 0) (zeros : ℕ) :
    decimalDigits (m * 10 ^ zeros) = decimalDigits m ++ List.replicate zeros '0' := by
  induction zeros with
  | zero => simp
  | succ zeros ih =>
      have hpos : 0 < m * 10 ^ zeros := Nat.mul_pos (Nat.pos_of_ne_zero hm) (by positivity)
      have hdiv : m * 10 ^ (zeros + 1) / 10 = m * 10 ^ zeros := by
        rw [Nat.pow_succ, ← Nat.mul_assoc, Nat.mul_div_cancel _ (by decide)]
      have hmod : m * 10 ^ (zeros + 1) % 10 = 0 := by
        rw [Nat.pow_succ, ← Nat.mul_assoc, Nat.mul_mod_left]
      have hle : 10 ≤ m * 10 ^ (zeros + 1) := by
        rw [Nat.pow_succ, ← Nat.mul_assoc]
        exact Nat.le_mul_of_pos_left _ hpos
      rw [decimalDigits_of_le hle, hdiv, hmod, ih, List.append_assoc, List.replicate_succ']
      rfl

/-- The search for the shortest digits ends on a grid that has the natural itself. -/
theorem Dyadic.search_of_value (h : d.value = n) (he : d.exponent ≤ 0) (hm : d.mantissa ≠ 0)
    {length left count : ℕ} (hcount : count ≤ length) (hleft : length < count + left) :
    ∃ m zeros : ℕ, d.search length left count = (m, (zeros : ℤ)) ∧ m * 10 ^ zeros = n := by
  induction left generalizing count with
  | zero => omega
  | succ left ih =>
      rw [Dyadic.search]
      cases hgrid : d.onGrid? length count with
      | some hit =>
          obtain ⟨m, grid⟩ := hit
          obtain rfl : grid = ((length - count : ℕ) : ℤ) := by
            rw [Nat.cast_sub hcount]
            simp only [Dyadic.onGrid?] at hgrid
            split at hgrid <;> cases hgrid <;> rfl
          refine ⟨m, length - count, rfl, Dyadic.eq_of_admits h he ?_⟩
          have := Dyadic.admits_of_onGrid? hgrid
          rw [zpow_natCast] at this
          exact_mod_cast this
      | none =>
          refine ih (Nat.lt_of_le_of_ne hcount ?_) (by omega)
          -- at the ones the natural itself is found
          rintro rfl
          have hdiv : d.quotient.1 / d.quotient.2 = n := by
            rw [Dyadic.quotient_of_value h, Nat.mul_div_cancel _ d.quotient_pos]
          simp only [Dyadic.onGrid?, sub_self, neg_zero, Int.toNat_zero, Nat.pow_eq, pow_zero,
            mul_one, hdiv, Dyadic.readsBack_of_value h he hm] at hgrid
          cases hup : d.readsBack 0 (n + 1) <;> rw [hup] at hgrid <;> cases hgrid

/-- **The shortest digits of a natural** are its digits without the zeros at their end. -/
theorem Dyadic.positional_of_value (h : d.value = n) (he : d.exponent ≤ 0) (hm : d.mantissa ≠ 0)
    (hn : n ≠ 0) (hlength : (decimalDigits n).length ≤ 17) :
    d.shortest.point = (decimalDigits n).length ∧ d.shortest.positional = decimalDigits n := by
  have hpos := length_decimalDigits_pos n
  obtain ⟨m, zeros, hsearch, rfl⟩ := Dyadic.search_of_value h he hm
    (show 1 ≤ (decimalDigits n).length from hpos) (show _ < 1 + 17 by omega)
  have hm0 : m ≠ 0 := by
    rintro rfl
    exact hn (Nat.zero_mul _)
  obtain ⟨-, count, hsplit⟩ := @dropZeros_append (decimalDigits m) (by rwa [value_decimalDigits])
  have hdigits := decimalDigits_mul_pow hm0 zeros
  rw [Dyadic.shortest, Dyadic.point_of_value h hn, hsearch]
  have hpoint : (zeros : ℤ) + (decimalDigits m).length = (decimalDigits (m * 10 ^ zeros)).length := by
    rw [hdigits, List.length_append, List.length_replicate]
    push_cast
    ring
  refine ⟨hpoint, ?_⟩
  have hkept := congrArg List.length hsplit
  rw [List.length_append, List.length_replicate] at hkept
  rw [Decimal.positional]
  simp only [hpoint]
  have hrest : (((decimalDigits (m * 10 ^ zeros)).length : ℤ) -
      (dropZeros (decimalDigits m)).length).toNat = count + zeros := by
    rw [hdigits, List.length_append, List.length_replicate]
    omega
  rw [if_neg (by omega), if_pos (by rw [hdigits, List.length_append]; push_cast; omega), hrest, hdigits,
    List.replicate_add, ← List.append_assoc, ← hsplit]

end

/-! ### Naturals as numbers -/

section
variable {n : ℕ}

theorem ofNat_zero : ofNat 0 = 0 := by
  decide

/-- **A natural up to 2^53 is a number**, with the natural as its magnitude. -/
theorem magnitude_ofNat (hn : n ≠ 0) (h : n ≤ 2 ^ 53) : (Dyadic.ofFloat (ofNat n)).value = n ∧
    (Dyadic.ofFloat (ofNat n)).mantissa ≠ 0 ∧ (n < 2 ^ 53 → (Dyadic.ofFloat (ofNat n)).exponent ≤ 0) ∧
      (ofNat n).isFinite = true ∧ signBit (ofNat n) = false := by
  obtain ⟨d, hd, hm, hvalue, he⟩ := Dyadic.exists_value_eq hn h
  obtain ⟨hofFloat, hfinite, hs⟩ := ofFloat_nearest hd hm Nat.one_pos
    (show (n : ℚ) = d.value * (1 : ℕ) by rw [hvalue, Nat.cast_one, mul_one])
  rw [ofNat, hofFloat]
  exact ⟨hvalue, hm, he, hfinite, hs⟩

theorem not_beq_zero_ofNat (hn : n ≠ 0) (h : n ≤ 2 ^ 53) : (ofNat n == 0) = false := by
  obtain ⟨-, hm, -, hfinite, hs⟩ := magnitude_ofNat hn h
  refine Bool.eq_false_iff.mpr fun heq => hm ?_
  rw [Dyadic.ofFloat, (bits_eq_zero_iff hs).mp heq]
  rfl

/-- **The whole part of a natural** is the natural. -/
theorem wholePart_ofNat (h : n ≤ 2 ^ 53) : wholePart (ofNat n) = .at n := by
  rcases Nat.eq_zero_or_pos n with rfl | hpos
  · decide +kernel
  · obtain ⟨hvalue, -, -, hfinite, hs⟩ := magnitude_ofNat (Nat.ne_of_gt hpos) h
    rw [wholePart_of_isFinite hfinite, exact, hs, if_neg Bool.false_ne_true, hvalue]
    simp [towardZero]

theorem isWhole_ofNat (h : n ≤ 2 ^ 53) : isWhole (ofNat n) = true := by
  rcases Nat.eq_zero_or_pos n with rfl | hpos
  · decide +kernel
  · obtain ⟨hvalue, -, -, hfinite, -⟩ := magnitude_ofNat (Nat.ne_of_gt hpos) h
    have hmod : (Dyadic.ofFloat (ofNat n)).quotient.1 % (Dyadic.ofFloat (ofNat n)).quotient.2 = 0 := by
      rw [Dyadic.quotient_of_value hvalue, Nat.mul_mod_left]
    simp [isWhole, hfinite, hmod]

theorem ofNat_injective {m : ℕ} (hm : m ≤ 2 ^ 53) (hn : n ≤ 2 ^ 53) (h : ofNat m = ofNat n) : m = n := by
  have := wholePart_ofNat hm
  rw [h, wholePart_ofNat hn] at this
  cases this
  rfl

/-- **A natural below 2^53 has its digits as text.** -/
theorem text_ofNat (h : n < 2 ^ 53) : text (ofNat n) = natText n := by
  rcases Nat.eq_zero_or_pos n with rfl | hpos
  · decide
  · have hn := Nat.ne_of_gt hpos
    obtain ⟨hvalue, hm, he, hfinite, hs⟩ := magnitude_ofNat hn h.le
    have hlength : (decimalDigits n).length ≤ 16 :=
      length_decimalDigits_le (by decide) (h.trans (by norm_num))
    obtain ⟨hpoint, hpositional⟩ := Dyadic.positional_of_value hvalue (he h) hm hn (by omega)
    have hshort : (Dyadic.ofFloat (ofNat n)).shortest.isPositional = true := by
      rw [Decimal.isPositional, hpoint]
      simp only [Bool.and_eq_true, decide_eq_true_eq]
      omega
    rw [text, not_isNaN_of_isFinite hfinite, not_isInf_of_isFinite hfinite, hs,
      not_beq_zero_ofNat hn h.le, magnitudeText]
    simp only [hshort, hpositional, if_true, Bool.false_eq_true, if_false, List.nil_append]
    rfl

/-- What compares equal to a natural is this number, or a zero with a sign. -/
theorem eq_ofNat_of_beq {x : Float} (h : n ≤ 2 ^ 53) (hx : (x == ofNat n) = true) :
    x = ofNat n ∨ n = 0 ∧ x = -0 := by
  obtain ⟨-, -, rfl | ⟨-, hminus⟩ | ⟨rfl, hzero⟩⟩ := Float.beq_iff_ne_nan_and_eq.mp hx
  · exact .inl rfl
  · rcases Nat.eq_zero_or_pos n with rfl | hpos
    · exact absurd hminus (by decide)
    · have hs := (magnitude_ofNat (Nat.ne_of_gt hpos) h).2.2.2.2
      rw [hminus] at hs
      exact absurd hs (by decide)
  · exact .inr ⟨ofNat_injective h (Nat.zero_le _) (hzero.trans ofNat_zero.symm), rfl⟩

theorem wholePart_of_beq {x : Float} (h : n ≤ 2 ^ 53) (hx : (x == ofNat n) = true) :
    wholePart x = .at n ∧ isWhole x = true := by
  rcases eq_ofNat_of_beq h hx with rfl | ⟨rfl, rfl⟩
  · exact ⟨wholePart_ofNat h, isWhole_ofNat h⟩
  · decide +kernel

theorem text_of_beq {x : Float} (h : n < 2 ^ 53) (hx : (x == ofNat n) = true) :
    text x = natText n := by
  rcases eq_ofNat_of_beq h.le hx with rfl | ⟨rfl, rfl⟩
  · exact text_ofNat h
  · decide

/-! ### Naturals that are rounded -/

/-- The bits of 2^53. -/
def leastRounded : ℕ := 1076 * Nat.pow 2 52

theorem le_nearestBits (h : 2 ^ 53 ≤ n) : leastRounded ≤ nearestBits n 1 := by
  have hpow : Nat.pow 2 52 = 4503599627370496 := by norm_num
  have hn : n ≠ 0 := by omega
  have hexact : (n : ℚ) = n * (1 : ℕ) := by rw [Nat.cast_one, mul_one]
  obtain ⟨place, hlow, hhigh, hlast⟩ := exists_place Nat.one_pos hexact
    (by exact_mod_cast Nat.pos_of_ne_zero hn)
  have hplace : 1 ≤ place := by
    have hq : ((2 : ℚ) ^ (53 : ℤ)) ≤ n := by exact_mod_cast h
    have := (zpow_lt_zpow_iff_right₀ (by norm_num : (1 : ℚ) < 2)).mp (hq.trans_lt hhigh)
    omega
  obtain ⟨p, rfl⟩ : ∃ p : ℕ, place = p := ⟨place.toNat, by omega⟩
  have hmantissa : 2 ^ 52 ≤ roundEven (n * Nat.pow 2 (-(p : ℤ)).toNat) (1 * Nat.pow 2 (p : ℤ).toNat) := by
    have hquotient : 2 ^ 52 ≤ n / 2 ^ p := by
      rw [Nat.le_div_iff_mul_le (by positivity), ← Nat.pow_add, Nat.add_comm]
      exact_mod_cast hlow
    have hle : n / 2 ^ p ≤ roundEven n (2 ^ p) := by
      simp only [roundEven]
      split <;> [skip; split <;> [skip; split]] <;> omega
    simpa using hquotient.trans hle
  rw [nearestBits, if_neg hn, hlast, max_eq_left (by omega), leastRounded, hpow]
  dsimp only
  omega

/-- **Rounding a natural from 2^53 on** does not give less than 2^53. -/
theorem le_wholePart_ofNat (h : 2 ^ 53 ≤ n) : wholePart (ofNat n) = .above ∨
    ∃ m : ℕ, 2 ^ 53 ≤ m ∧ wholePart (ofNat n) = .at m := by
  rw [ofNat, nearest]
  rcases Nat.lt_or_eq_of_le (nearestBits_le n 1) with hlt | heq
  · right
    obtain ⟨hfinite, hs⟩ := ofBits_finite hlt
    refine ⟨(Dyadic.ofBits (nearestBits n 1)).floor, ?_, ?_⟩
    · have hvalue : 2 ^ 53 ≤ (Dyadic.ofBits (nearestBits n 1)).value := by
        have hleast : (Dyadic.ofBits leastRounded).value = 2 ^ 53 := by
          rw [show Dyadic.ofBits leastRounded = ⟨2 ^ 52, 1⟩ by decide +kernel]
          norm_num [Dyadic.value]
        rcases Nat.lt_or_eq_of_le (le_nearestBits h) with hmore | heq
        · exact hleast ▸ (Dyadic.value_lt hmore hlt).le
        · rw [← heq, hleast]
      rw [Dyadic.floor]
      refine (Nat.le_div_iff_mul_le (Dyadic.quotient_pos _)).mpr ?_
      have hq := mul_le_mul_of_nonneg_right hvalue
        (Nat.cast_nonneg (α := ℚ) (Dyadic.ofBits (nearestBits n 1)).quotient.2)
      rw [← Dyadic.quotient_eq] at hq
      exact_mod_cast hq
    · rw [wholePart, not_isNaN_of_isFinite hfinite, not_isInf_of_isFinite hfinite, hs, Dyadic.ofFloat,
        toNat_toBits_ofBits hlt]
      rfl
  · left
    rw [heq]
    decide +kernel

end

end Stencil.Number
