import Mathlib
import Stencil.Proofs.Numbers.Layout
import Stencil.Script.Method

/-!
# Numbers — a fixed number of places

A number that is written with a count of digits after the point is the nearest decimal of that form
to its exact value, and of two that are equally near the one farther from zero (`run_toFixed`).

Ties are found on the bits: the exact value doubled and scaled is an odd natural times a power of
two, and halfway between two integers when this power is one (`Dyadic.isTie_iff`).  Then one more
place is exact and ends with a five, and the carry over the characters of the digits before it adds
one to the number that they are (`FixedDecimal.increment`).
-/

namespace Stencil.Number

/-! ### Exact values -/

theorem Dyadic.quotient_pos (d : Dyadic) : 0 < d.quotient.2 :=
  Nat.pow_pos (by decide)

theorem Dyadic.quotient_eq (d : Dyadic) : (d.quotient.1 : ℚ) = d.value * d.quotient.2 := by
  simp only [Dyadic.quotient, Dyadic.value, Nat.pow_eq, Nat.cast_mul, Nat.cast_pow, Nat.cast_ofNat,
    ← zpow_mul_pow_toNat (by norm_num : (2 : ℚ) ≠ 0) d.exponent]
  ring

/-! ### Ties -/

/-- Whether a value lies exactly halfway between two integers. -/
def Halfway (q : ℚ) : Prop :=
  ∃ k : ℤ, q = k + 1 / 2

theorem twos_spec {fuel n : ℕ} (hn : n ≠ 0) (hfuel : n < 2 ^ fuel) :
    ∃ odd, n = odd * 2 ^ twos fuel n ∧ odd % 2 = 1 := by
  induction fuel generalizing n with
  | zero => omega
  | succ fuel ih =>
      rw [twos]
      by_cases heven : n % 2 = 0
      · obtain ⟨odd, hhalf, hodd⟩ := @ih (n / 2) (by omega) (by omega)
        refine ⟨odd, ?_, hodd⟩
        rw [if_pos ⟨hn, heven⟩, pow_succ, ← mul_assoc, ← hhalf]
        omega
      · exact ⟨n, by rw [if_neg fun h => heven h.2, pow_zero, mul_one], by omega⟩

/-- An odd natural times a power of two is halfway between integers only for one half. -/
theorem halfway_iff {odd : ℕ} (hodd : odd % 2 = 1) (p : ℤ) :
    Halfway (odd * 2 ^ p) ↔ p + 1 = 0 := by
  constructor
  · rintro ⟨k, hk⟩
    rcases lt_trichotomy (p + 1) 0 with h | h | h
    · -- the odd natural would be even
      obtain ⟨n, hn⟩ : ∃ n : ℕ, p = -((n : ℤ) + 2) := ⟨(-(p + 2)).toNat, by omega⟩
      have hscale : (2 : ℚ) ^ p * 2 ^ (n + 2) = 1 := by
        rw [hn, ← zpow_natCast, ← zpow_add₀ (by norm_num)]
        simp
      have hint : (odd : ℤ) = (2 * k + 1) * 2 ^ n * 2 := by
        have : (odd : ℚ) = (2 * k + 1) * 2 ^ n * 2 := by
          linear_combination 2 ^ (n + 2) * hk - odd * hscale
        exact_mod_cast this
      omega
    · exact h
    · -- an integer would be halfway
      obtain ⟨n, hn⟩ : ∃ n : ℕ, p = n := ⟨p.toNat, by omega⟩
      have hint : 2 * ((odd : ℤ) * 2 ^ n) = 2 * k + 1 := by
        rw [hn, zpow_natCast] at hk
        have : 2 * ((odd : ℚ) * 2 ^ n) = 2 * k + 1 := by linear_combination 2 * hk
        exact_mod_cast this
      omega
  · intro h
    obtain ⟨k, rfl⟩ : ∃ k, odd = 2 * k + 1 := ⟨odd / 2, by omega⟩
    refine ⟨k, ?_⟩
    rw [show p = -1 by omega, zpow_neg_one]
    push_cast
    ring

/-- **Ties are found on the bits.** -/
theorem Dyadic.isTie_iff {d : Dyadic} (hsize : d.mantissa < 2 ^ 53) (places : ℕ) :
    d.isTie places = true ↔ Halfway (d.value * 10 ^ places) := by
  by_cases hm : d.mantissa = 0
  · refine iff_of_false (by simp [Dyadic.isTie, hm]) ?_
    rintro ⟨k, hk⟩
    have hint : (0 : ℤ) = 2 * k + 1 := by
      rw [Dyadic.value, hm, Nat.cast_zero, zero_mul, zero_mul] at hk
      have : (0 : ℚ) = 2 * k + 1 := by linear_combination 2 * hk
      exact_mod_cast this
    omega
  · obtain ⟨odd, hsplit, hodd⟩ := @twos_spec 64 _ hm (hsize.trans (by decide))
    have hvalue : d.value * 10 ^ places =
        (odd * 5 ^ places : ℕ) * 2 ^ ((twos 64 d.mantissa : ℤ) + d.exponent + places) := by
      rw [Dyadic.value, show (10 : ℚ) = 5 * 2 by norm_num, mul_pow, zpow_add₀ (by norm_num),
        zpow_add₀ (by norm_num), zpow_natCast, zpow_natCast]
      conv_lhs => rw [hsplit]
      push_cast
      ring
    have hproduct : odd * 5 ^ places % 2 = 1 := by
      rw [Nat.mul_mod, hodd, Nat.pow_mod]
      norm_num
    rw [hvalue, halfway_iff hproduct]
    simp [Dyadic.isTie, hm]

/-! ### Rounded values -/

/-- The decimal `units / 10^places` is nearest to a value among the decimals with as many places,
and of two equally near ones it is the greater. -/
structure NearestDecimal (value : ℚ) (places units : ℕ) : Prop where
  nearest : ∀ k : ℤ, |value - units / 10 ^ places| ≤ |value - k / 10 ^ places|
  tie : ∀ k : ℤ, |value - k / 10 ^ places| = |value - units / 10 ^ places| → k ≤ units

theorem NearestDecimal.of_bounds {value : ℚ} {places units : ℕ}
    (hlow : (units : ℚ) - 1 / 2 ≤ value * 10 ^ places)
    (hhigh : value * 10 ^ places < units + 1 / 2) : NearestDecimal value places units := by
  have hpow : (0 : ℚ) < 10 ^ places := by positivity
  have hscale : ∀ k : ℚ, |value - k / 10 ^ places| = |value * 10 ^ places - k| / 10 ^ places := by
    intro k
    rw [← abs_of_pos hpow, ← abs_div, abs_of_pos hpow]
    congr 1
    field_simp
  have hself : |value * 10 ^ places - units| ≤ 1 / 2 :=
    abs_le.mpr ⟨by linarith, by linarith⟩
  -- another integer is at least half away, and below the value if it is not farther
  have hbelow : ∀ k : ℤ, k < units → (1 : ℚ) / 2 ≤ value * 10 ^ places - k := by
    intro k hk
    have : (k : ℚ) + 1 ≤ units := by exact_mod_cast hk
    linarith
  have habove : ∀ k : ℤ, (units : ℤ) < k → (1 : ℚ) / 2 < k - value * 10 ^ places := by
    intro k hk
    have : (units : ℚ) + 1 ≤ k := by exact_mod_cast hk
    linarith
  constructor
  · intro k
    rw [hscale, hscale]
    refine div_le_div_of_nonneg_right ?_ hpow.le
    rcases lt_trichotomy k units with h | rfl | h
    · exact hself.trans ((hbelow k h).trans (le_abs_self _))
    · exact le_of_eq (by push_cast; rfl)
    · exact hself.trans ((habove k h).le.trans ((le_abs_self _).trans (abs_sub_comm _ _).le))
  · intro k heq
    rw [hscale, hscale, div_left_inj' hpow.ne'] at heq
    by_contra h
    have hfar := (habove k (not_le.mp h)).trans_le (le_abs_self _)
    rw [abs_sub_comm, heq] at hfar
    exact absurd hself (not_le.mpr hfar)

section
variable {num den : ℕ} {q : ℚ}

theorem roundEven_bounds (hden : 0 < den) (hq : (num : ℚ) = q * den) :
    (roundEven num den : ℚ) - 1 / 2 ≤ q ∧ q ≤ roundEven num den + 1 / 2 := by
  have hdenq : (0 : ℚ) < den := by exact_mod_cast hden
  have hsplit := Nat.div_add_mod' num den
  have hlt := Nat.mod_lt num hden
  have hnat : 2 * (roundEven num den * den) ≤ 2 * num + den ∧
      2 * num ≤ 2 * (roundEven num den * den) + den := by
    rw [roundEven]
    generalize num / den = k, num % den = r at hsplit hlt
    have hnext : (k + 1) * den = k * den + den := Nat.succ_mul k den
    split
    · omega
    · split
      · omega
      · split <;> omega
  obtain ⟨hlow, hhigh⟩ := hnat
  rw [← Nat.cast_le (α := ℚ)] at hlow hhigh
  push_cast at hlow hhigh
  rw [hq] at hlow hhigh
  constructor
  · refine le_of_mul_le_mul_right ?_ hdenq
    linarith
  · refine le_of_mul_le_mul_right ?_ hdenq
    linarith

theorem roundEven_exact (hden : 0 < den) {k : ℕ} (hq : (num : ℚ) = k * den) :
    roundEven num den = k := by
  have hnum : num = k * den := by exact_mod_cast hq
  exact roundEven_eq (by omega) (by omega) hden (.inr (by omega))

end

/-! ### Decimals with a fixed number of places -/

/-- Digits without a zero before them, but for zero itself. -/
structure Leading (cs : List Char) : Prop where
  digits : Digits cs
  first : cs.head? = some '0' → cs = ['0']

/-- **Decimals with a fixed number of places.**  `FixedDecimal places units cs` says that `cs` is
`units / 10^places` with as many digits after the point, and without a point if there are none. -/
inductive FixedDecimal : ℕ → ℕ → List Char → Prop where
  | whole {before : List Char} : Leading before → FixedDecimal 0 (value 10 before) before
  | pointed {before after : List Char} : Leading before → Digits after →
      FixedDecimal after.length (value 10 (before ++ after)) (before ++ '.' :: after)

theorem FixedDecimal.of_whole {before : List Char} {units : ℕ} (h : Leading before)
    (hvalue : value 10 before = units) : FixedDecimal 0 units before :=
  hvalue ▸ .whole h

theorem FixedDecimal.of_pointed {before after : List Char} {places units : ℕ} (h : Leading before)
    (hafter : Digits after) (hlength : after.length = places)
    (hvalue : value 10 (before ++ after) = units) :
    FixedDecimal places units (before ++ '.' :: after) :=
  hlength ▸ hvalue ▸ .pointed h hafter

/-- Whether a zero stands before other digits is seen on the value. -/
theorem Leading.of_le {cs : List Char} (h : Digits cs)
    (hvalue : cs.length = 1 ∨ 10 ^ (cs.length - 1) ≤ value 10 cs) : Leading cs := by
  refine ⟨h, fun hfirst => ?_⟩
  obtain ⟨c, rest, rfl⟩ := List.exists_cons_of_ne_nil h.1
  obtain rfl : c = '0' := by simpa using hfirst
  rcases hvalue with hone | hle
  · rw [List.length_eq_zero_iff.mp (Nat.succ.inj hone)]
  · have hzero : (digitValue? 10 '0').getD 0 = 0 := by decide
    rw [value_cons, hzero, Nat.zero_mul, Nat.zero_add, List.length_cons, Nat.add_sub_cancel] at hle
    exact absurd (value_lt (by decide) rest) (Nat.not_lt.mpr hle)

theorem Leading.le {cs : List Char} (h : Leading cs) :
    cs.length = 1 ∨ 10 ^ (cs.length - 1) ≤ value 10 cs := by
  obtain ⟨⟨hne, hdigits⟩, hfirst⟩ := h
  obtain ⟨c, rest, rfl⟩ := List.exists_cons_of_ne_nil hne
  by_cases hc : c = '0'
  · left
    rw [hfirst (by rw [hc]; rfl)]
    rfl
  · right
    rw [List.all_cons, Bool.and_eq_true] at hdigits
    have hpos : 0 < c.toNat - 48 := by
      refine Nat.pos_of_ne_zero fun hzero => hc (Char.toNat_inj.mp ?_)
      have := (isDigit_iff.mp hdigits.1).1
      show c.toNat = 48
      omega
    rw [value_cons, digitValue?_of_isDigit hdigits.1, Option.getD_some, List.length_cons,
      Nat.add_sub_cancel]
    exact (Nat.le_mul_of_pos_left _ hpos).trans (Nat.le_add_right _ _)

/-- What is written before the point has no zero before other digits: more digits than one stand there
only if the natural itself has as many. -/
theorem leading_of_padded {n places : ℕ} {before after : List Char}
    (hpadded : padZeros (places + 1) (decimalDigits n) = before ++ after)
    (hafter : after.length = places) (hbefore : Digits before) (hvalue : value 10 (before ++ after) = n) :
    Leading before := by
  refine .of_le hbefore ?_
  by_cases hone : before.length = 1
  · exact .inl hone
  · right
    have hlength : before.length + places = max (places + 1) (decimalDigits n).length := by
      rw [← hafter, ← List.length_append, ← hpadded, padZeros, List.length_append, List.length_replicate]
      omega
    have hn : 0 < n := by
      refine Nat.pos_of_ne_zero fun hzero => ?_
      rw [hzero, show (decimalDigits 0).length = 1 from rfl] at hlength
      omega
    have hle := pow_le_of_decimalDigits hn
    rw [show (decimalDigits n).length - 1 = before.length - 1 + places by omega, Nat.pow_add,
      ← hvalue, value_append, hafter] at hle
    have hlt := value_lt (by decide : 0 < 10) after
    rw [hafter] at hlt
    by_contra hsmall
    -- a smaller value before the point leaves less than `n`, whatever the places after it hold
    have hmul := Nat.mul_le_mul_right (10 ^ places) (Nat.succ_le_of_lt (Nat.lt_of_not_le hsmall))
    rw [Nat.succ_mul] at hmul
    omega

/-- **A natural with a point** is a decimal with that number of places. -/
theorem fixedDecimal_pointed (n places : ℕ) : FixedDecimal places n (pointed n places) := by
  obtain ⟨digits, hpadded⟩ : ∃ digits, digits = padZeros (places + 1) (decimalDigits n) := ⟨_, rfl⟩
  have hdigits : digits.all Char.isDigit = true := by
    rw [hpadded, padZeros, List.all_append, isDigit_decimalDigits, Bool.and_true]
    simp
  have hvalue : value 10 digits = n := by
    rw [hpadded, padZeros, value_zeros_append, value_decimalDigits]
  have hlength : digits.length = max (places + 1) (decimalDigits n).length := by
    rw [hpadded, padZeros, List.length_append, List.length_replicate]
    omega
  obtain ⟨before, after, hsplit, hafter⟩ : ∃ before after, digits = before ++ after ∧
      after.length = places :=
    ⟨_, _, (List.take_append_drop (digits.length - places) digits).symm, by
      rw [List.length_drop]; omega⟩
  have hbefore : digits.length - places = before.length := by
    rw [hsplit, List.length_append]
    omega
  rw [hsplit, List.all_append, Bool.and_eq_true] at hdigits
  have hleading : Leading before := leading_of_padded (hpadded.symm.trans hsplit) hafter
    ⟨List.ne_nil_of_length_pos (by omega), hdigits.1⟩ (hsplit ▸ hvalue)
  rw [pointed, ← hpadded]
  by_cases hplaces : places = 0
  · subst hplaces
    rw [List.length_eq_zero_iff.mp hafter, List.append_nil] at hsplit
    rw [if_pos rfl, hsplit]
    exact .of_whole hleading (hsplit ▸ hvalue)
  · rw [if_neg hplaces, hbefore, hsplit, List.take_left, List.drop_left]
    exact .of_pointed hleading ⟨List.ne_nil_of_length_pos (by omega), hdigits.2⟩ hafter
      (hsplit ▸ hvalue)

/-- **Without its last digit** a decimal is cut to one place less. -/
theorem FixedDecimal.dropPlace {places units : ℕ} {cs : List Char}
    (h : FixedDecimal (places + 1) units cs) : FixedDecimal places (units / 10) (dropPlace cs) := by
  generalize hplaces : places + 1 = p at h
  cases h with
  | whole => cases hplaces
  | @pointed before after hbefore hafter =>
      obtain ⟨kept, c, rfl⟩ : ∃ kept c, after = kept ++ [c] :=
        ⟨_, _, (List.dropLast_append_getLast hafter.1).symm⟩
      have hdigits := hafter.2
      rw [List.all_append, Bool.and_eq_true, List.all_cons, List.all_nil, Bool.and_true] at hdigits
      have hvalue : value 10 (before ++ (kept ++ [c])) / 10 = value 10 (before ++ kept) := by
        have hlt := value_lt (by decide : 0 < 10) [c]
        rw [List.length_singleton] at hlt
        rw [← List.append_assoc, value_append, List.length_singleton]
        omega
      have hlast : (before ++ '.' :: (kept ++ [c])).dropLast = before ++ '.' :: kept := by
        rw [← List.cons_append, ← List.append_assoc, List.dropLast_concat]
      rw [List.length_append, List.length_singleton] at hplaces
      rw [hvalue, Number.dropPlace, hlast]
      -- the point goes with the last digit after it
      by_cases hkept : kept = []
      · subst hkept
        rw [if_pos (by simp), List.dropLast_concat, List.append_nil]
        obtain rfl : places = 0 := by simpa using hplaces
        exact .whole hbefore
      · have hpoint : (before ++ '.' :: kept).getLast? ≠ some '.' := by
          rw [List.getLast?_append_cons, List.getLast?_cons, List.getLast?_eq_getLast_of_ne_nil hkept]
          intro heq
          have hdot := List.all_eq_true.mp hdigits.1 _ (List.getLast_mem hkept)
          rw [show kept.getLast hkept = '.' by simpa using heq] at hdot
          cases hdot
        rw [if_neg hpoint]
        exact .of_pointed hbefore ⟨hkept, hdigits.1⟩ (by omega) rfl

/-! ### One more in the last place -/

theorem value_nines (count : ℕ) : value 10 (List.replicate count '9') + 1 = 10 ^ count := by
  induction count with
  | zero => rfl
  | succ count ih =>
      have hnine : (digitValue? 10 '9').getD 0 = 9 := by decide
      rw [List.replicate_succ, value_cons, List.length_replicate, hnine, pow_succ]
      omega

/-- The carry goes past nines. -/
theorem increment_nines (count : ℕ) (rest : List Char) :
    increment (List.replicate count '9' ++ rest) = List.replicate count '0' ++ increment rest := by
  induction count with
  | zero => rfl
  | succ count ih => rw [List.replicate_succ, List.cons_append, increment, ih]; rfl

/-- A digit that is no nine goes up by one. -/
theorem next_digit {c : Char} (h : c.isDigit = true) (hc : c ≠ '9') :
    (Char.ofNat (c.toNat + 1)).isDigit = true ∧
      value 10 [Char.ofNat (c.toNat + 1)] = value 10 [c] + 1 := by
  have all : ∀ n < 57, 48 ≤ n → (Char.ofNat (n + 1)).isDigit = true ∧
      value 10 [Char.ofNat (n + 1)] = value 10 [Char.ofNat n] + 1 := by
    decide
  obtain ⟨hlow, hhigh⟩ := isDigit_iff.mp h
  have hne : c.toNat ≠ 57 := fun hnine => hc (Char.toNat_inj.mp hnine)
  have hnext := all c.toNat (by omega) hlow
  rwa [Char.ofNat_toNat] at hnext

/-- The carry stops at another digit. -/
theorem increment_digits {cs : List Char} (hdigits : cs.all Char.isDigit = true)
    (hnines : ∃ c ∈ cs, c ≠ '9') : ∃ up, (∀ rest, increment (cs ++ rest) = up ++ rest) ∧
      up.all Char.isDigit = true ∧ up.length = cs.length ∧
      value 10 up.reverse = value 10 cs.reverse + 1 := by
  induction cs with
  | nil => simp at hnines
  | cons c cs ih =>
      rw [List.all_cons, Bool.and_eq_true] at hdigits
      -- the digits stand last one first: a nine becomes a zero and the carry goes on
      by_cases hc : c = '9'
      · subst hc
        obtain ⟨up, hup, hall, hlength, hvalue⟩ := ih hdigits.2 (by simpa using hnines)
        have hnine : value 10 ['9'] = 9 := by decide
        have hzero : value 10 ['0'] = 0 := by decide
        refine ⟨'0' :: up, fun rest => ?_, ?_, ?_, ?_⟩
        · rw [List.cons_append, increment, hup]
          rfl
        · rw [List.all_cons, hall]
          rfl
        · rw [List.length_cons, List.length_cons, hlength]
        · rw [List.reverse_cons, List.reverse_cons, value_append, value_append, hvalue, hnine, hzero,
            List.length_singleton, List.length_singleton]
          omega
      · obtain ⟨hdigit, hnext⟩ := next_digit hdigits.1 hc
        refine ⟨Char.ofNat (c.toNat + 1) :: cs, fun rest => ?_, ?_, rfl, ?_⟩
        · have hpoint : c ≠ '.' := by
            rintro rfl
            exact absurd hdigits.1 (by decide)
          rw [List.cons_append, increment.eq_4 _ _ hpoint hc]
          rfl
        · rw [List.all_cons, hdigit, hdigits.2]
          rfl
        · rw [List.reverse_cons, List.reverse_cons, value_append, value_append, hnext,
            List.length_singleton, List.length_singleton]
          omega

/-- The carry stops at the last digit that is no nine. -/
theorem increment_reverse {cs : List Char} (hdigits : cs.all Char.isDigit = true)
    (hnines : ∃ c ∈ cs, c ≠ '9') : ∃ up, (∀ rest, increment (cs.reverse ++ rest) = up.reverse ++ rest) ∧
      up.all Char.isDigit = true ∧ up.length = cs.length ∧ value 10 up = value 10 cs + 1 := by
  obtain ⟨up, hup, hall, hlength, hvalue⟩ := increment_digits
    (by rwa [List.all_reverse] : cs.reverse.all Char.isDigit = true) (by simpa using hnines)
  refine ⟨up.reverse, fun rest => by rw [hup, List.reverse_reverse], by rwa [List.all_reverse], ?_, ?_⟩
  · rw [List.length_reverse, hlength, List.length_reverse]
  · rw [hvalue, List.reverse_reverse]

/-- Digits are nines throughout, or one is not. -/
theorem nines_or (cs : List Char) : (∃ count, cs = List.replicate count '9') ∨ ∃ c ∈ cs, c ≠ '9' := by
  by_cases h : ∀ c ∈ cs, c = '9'
  · exact .inl ⟨cs.length, List.eq_replicate_iff.mpr ⟨rfl, h⟩⟩
  · right
    simpa using h

/-- The digits before the point go up by one, and become one digit more if they were all nines. -/
theorem Leading.increment {cs : List Char} (h : Leading cs) :
    Leading (increment cs.reverse).reverse ∧
      value 10 (Number.increment cs.reverse).reverse = value 10 cs + 1 := by
  rcases nines_or cs with ⟨count, rfl⟩ | hother
  · have hup : (Number.increment (List.replicate count '9').reverse).reverse =
        '1' :: List.replicate count '0' := by
      have hcarry := increment_nines count []
      rw [List.append_nil] at hcarry
      rw [List.reverse_replicate, hcarry, Number.increment]
      simp
    have hone : (digitValue? 10 '1').getD 0 = 1 := by decide
    rw [hup]
    refine ⟨⟨⟨by simp, by simp⟩, by simp⟩, ?_⟩
    rw [value_cons, value_zeros, List.length_replicate, hone, ← value_nines]
    omega
  · obtain ⟨up, hup, hdigits, hlength, hvalue⟩ := increment_reverse h.digits.2 hother
    have hincrement : (Number.increment cs.reverse).reverse = up := by
      have hcarry := hup []
      rw [List.append_nil, List.append_nil] at hcarry
      rw [hcarry, List.reverse_reverse]
    rw [hincrement]
    refine ⟨.of_le ⟨?_, hdigits⟩ ?_, hvalue⟩
    · exact List.ne_nil_of_length_pos (hlength ▸ List.length_pos_of_ne_nil h.digits.1)
    · rw [hlength, hvalue]
      exact h.le.imp_right fun hle => hle.trans (Nat.le_add_right _ 1)

/-- **One more in the last place.** -/
theorem FixedDecimal.increment {places units : ℕ} {cs : List Char}
    (h : FixedDecimal places units cs) :
    FixedDecimal places (units + 1) (increment cs.reverse).reverse := by
  cases h with
  | whole hbefore => exact .of_whole hbefore.increment.1 hbefore.increment.2
  | @pointed before after hbefore hafter =>
      obtain ⟨hleading, hup⟩ := hbefore.increment
      rw [List.reverse_append, List.reverse_cons, List.append_assoc, List.singleton_append]
      rcases nines_or after with ⟨count, rfl⟩ | hother
      · rw [List.reverse_replicate, increment_nines, Number.increment, List.reverse_append,
          List.reverse_cons, List.append_assoc, List.singleton_append, List.reverse_replicate]
        have hcount : count ≠ 0 := by simpa using hafter.1
        refine .of_pointed hleading ⟨by simpa using hcount, by simp⟩ (by simp) ?_
        rw [value_append_zeros, hup, value_append, List.length_replicate, Nat.succ_mul, ← value_nines]
        ring
      · obtain ⟨up, hincrement, hdigits, hlength, hvalue⟩ := increment_reverse hafter.2 hother
        rw [hincrement, List.reverse_append, List.reverse_cons, List.reverse_reverse,
          List.reverse_reverse, List.append_assoc, List.singleton_append]
        refine .of_pointed hbefore ⟨?_, hdigits⟩ hlength ?_
        · exact List.ne_nil_of_length_pos (hlength ▸ List.length_pos_of_ne_nil hafter.1)
        · rw [value_append, hvalue, hlength, value_append]
          ring

/-! ### Numbers with a fixed number of places -/

section
variable {d : Dyadic}

theorem Dyadic.scaled_quotient (places : ℕ) :
    ((d.quotient.1 * Nat.pow 10 places : ℕ) : ℚ) = d.value * 10 ^ places * d.quotient.2 := by
  rw [Nat.cast_mul, d.quotient_eq, Nat.pow_eq, Nat.cast_pow, Nat.cast_ofNat]
  ring

/-- In one more place a tie is exact, and the last digit is a five. -/
theorem Dyadic.rounded_tie {places k : ℕ} (h : d.value * 10 ^ places = k + 1 / 2) :
    FixedDecimal (places + 1) (10 * k + 5) (d.rounded (places + 1)) := by
  have hexact : roundEven (d.quotient.1 * Nat.pow 10 (places + 1)) d.quotient.2 = 10 * k + 5 := by
    refine roundEven_exact d.quotient_pos ?_
    rw [scaled_quotient, pow_succ, ← mul_assoc, h]
    push_cast
    ring
  rw [← hexact]
  exact fixedDecimal_pointed _ _

/-- **A magnitude with a fixed number of places** is written as the nearest such decimal. -/
theorem Dyadic.fixed_nearest (hsize : d.mantissa < 2 ^ 53) (places : ℕ) :
    ∃ units, FixedDecimal places units (d.fixed places) ∧ NearestDecimal d.value places units := by
  rw [Dyadic.fixed]
  by_cases htie : d.isTie places = true
  · rw [if_pos htie]
    obtain ⟨k, hk⟩ := (isTie_iff hsize places).mp htie
    have hpos : 0 ≤ k := by
      have hvalue : 0 ≤ d.value * 10 ^ places := by
        rw [Dyadic.value]
        positivity
      have : (-1 : ℚ) < k := by linarith
      exact_mod_cast this
    lift k to ℕ using hpos
    have hkept := (rounded_tie (by exact_mod_cast hk)).dropPlace
    rw [show (10 * k + 5) / 10 = k by omega] at hkept
    refine ⟨k + 1, hkept.increment, .of_bounds ?_ ?_⟩ <;> rw [hk] <;> push_cast <;> linarith
  · rw [if_neg htie]
    obtain ⟨hlow, hhigh⟩ := roundEven_bounds d.quotient_pos (d.scaled_quotient places)
    refine ⟨_, fixedDecimal_pointed _ _, .of_bounds hlow (lt_of_le_of_ne hhigh fun heq => ?_)⟩
    exact htie ((isTie_iff hsize places).mpr ⟨roundEven _ _, by exact_mod_cast heq⟩)

end

open Script in
/-- **`toFixed` is exact.**  A finite number below 10^21 is written with as many digits after the
point as it is asked for, at most a hundred: a minus if it is below zero, and the decimal that is
nearest to its exact magnitude, the greater one if two are equally near.  What is found to be a tie
is exactly what lies halfway. -/
theorem run_toFixed {x : Float} {places : ℕ} {s : Store} {arguments : List Value}
    (hfinite : x.isFinite = true) (hsize : x.abs < 1e21) (hplaces : places ≤ 100)
    (hargument : s.whole (argument arguments 0) = .at places) :
    (∃ cs units, NumberMethod.toFixed.run x arguments s =
        .ok (.string (String.ofList ((if x < 0 then ['-'] else []) ++ cs))) s ∧
      FixedDecimal places units cs ∧ NearestDecimal (Dyadic.ofFloat x).value places units) ∧
    ((Dyadic.ofFloat x).isTie places = true ↔
      Halfway ((Dyadic.ofFloat x).value * 10 ^ places)) := by
  have hmantissa : (Dyadic.ofFloat x).mantissa < 2 ^ 53 := by
    rw [← ofFloat_abs hfinite]
    exact (Dyadic.finite_ofBits (lt_infiniteBits (isFinite_abs hfinite) (signBit_abs hfinite))).size
  refine ⟨?_, Dyadic.isTie_iff hmantissa places⟩
  obtain ⟨units, hdecimal, hnearest⟩ := Dyadic.fixed_nearest hmantissa places
  refine ⟨_, units, ?_, hdecimal, hnearest⟩
  have hrun : NumberMethod.toFixed.run x arguments s =
      fixedText x (s.whole (argument arguments 0)) s := rfl
  rw [hrun, hargument, fixedText, if_neg (by omega), hfinite, decide_eq_true hsize]
  rfl

open Script in
/-- A tie whose digits are all nines. -/
theorem run_toFixed_nines : (-999.5 : Float).isFinite = true ∧ (-999.5 : Float).abs < 1e21 ∧
    (∃ cs units, NumberMethod.toFixed.run (-999.5) [.null] Store.empty =
        .ok (.string (String.ofList ('-' :: cs))) Store.empty ∧
      FixedDecimal 0 units cs ∧ NearestDecimal (Dyadic.ofFloat (-999.5)).value 0 units) ∧
    Halfway ((Dyadic.ofFloat (-999.5)).value * 10 ^ 0) := by
  have hfinite : (-999.5 : Float).isFinite = true := by decide +kernel
  have hsize : (-999.5 : Float).abs < 1e21 := by decide +kernel
  have hminus : (-999.5 : Float) < 0 := by decide +kernel
  have hargument : Store.empty.whole (argument [.null] 0) = .at (0 : ℕ) := by decide +kernel
  obtain ⟨hrun, htie⟩ := run_toFixed hfinite hsize (Nat.zero_le 100) hargument
  rw [if_pos hminus] at hrun
  exact ⟨hfinite, hsize, hrun, htie.mp (by decide +kernel)⟩

/-- The carry over nines. -/
example : fixed (-999.5) 0 = "-1000" := by
  decide +kernel

end Stencil.Number
