import Mathlib.Algebra.Order.Field.Power
import Mathlib.Data.Rat.Cast.Order
import Mathlib.Tactic.FieldSimp
import Mathlib.Tactic.Linarith
import Mathlib.Tactic.NormNum
import Mathlib.Tactic.Ring
import Stencil.Number.Dyadic
import Stencil.Number.Shortest

/-!
# Numbers — rounding

`nearestBits` gives a quotient the bits of a number as soon as the quotient lies in the interval of
that number: `nearestBits_of_admits`.  The interval is the one that the shortest digits are tested
against, so what that test admits reads back.

The argument is one comparison of powers of two.  Inside the interval the last place that the
quotient is rounded to is that of the number, except just below a power of two, where it is one
less and the mantissa is rounded up to that power.
-/

namespace Stencil.Number

/-! ### Powers and their signs -/

theorem zpow_mul_pow_toNat {b : ℚ} (hb : b ≠ 0) (p : ℤ) : b ^ p * b ^ (-p).toNat = b ^ p.toNat := by
  rw [← zpow_natCast, ← zpow_natCast, ← zpow_add₀ hb]
  congr 1
  omega

theorem two_zpow_pos (p : ℤ) : (0 : ℚ) < 2 ^ p :=
  zpow_pos (by norm_num) p

theorem two_zpow_succ (p : ℤ) : (2 : ℚ) ^ (p + 1) = 2 * 2 ^ p := by
  rw [zpow_add_one₀ (by norm_num), mul_comm]

theorem two_zpow_add (p : ℤ) (n : ℕ) : (2 : ℚ) ^ (p + n) = 2 ^ n * 2 ^ p := by
  rw [zpow_add₀ (by norm_num), zpow_natCast, mul_comm]

/-! ### The rounded quotient -/

/-- A quotient rounds to a natural that is at most half away, if it is half away to an even one. -/
theorem roundEven_eq {num den k : ℕ} (hlow : 2 * (k * den) ≤ 2 * num + den)
    (hhigh : 2 * num ≤ 2 * (k * den) + den) (hden : 0 < den)
    (htie : k % 2 = 0 ∨ 2 * (k * den) < 2 * num + den ∧ 2 * num < 2 * (k * den) + den) :
    roundEven num den = k := by
  obtain ⟨q, r, hq, hr⟩ : ∃ q r, num / den = q ∧ num % den = r := ⟨_, _, rfl, rfl⟩
  have hsplit : q * den + r = num := by rw [← hq, ← hr, Nat.div_add_mod']
  have hlt : r < den := hr ▸ Nat.mod_lt num hden
  have habove : q ≤ k := by
    by_contra h
    have := Nat.mul_le_mul_right den (Nat.succ_le_of_lt (Nat.lt_of_not_le h))
    rw [Nat.succ_mul] at this
    omega
  have hbelow : k ≤ q + 1 := by
    by_contra h
    have := Nat.mul_le_mul_right den (Nat.succ_le_of_lt (Nat.lt_of_not_le h))
    rw [Nat.succ_mul, Nat.succ_mul] at this
    omega
  -- so `k` is the quotient or the next natural, and the remainder decides which
  rw [roundEven, hq, hr]
  rcases Nat.lt_or_eq_of_le habove with h | rfl
  · obtain rfl : k = q + 1 := by omega
    rw [Nat.add_one_mul q den] at hlow hhigh htie
    rw [if_neg (by omega)]
    split
    · rfl
    · rw [if_neg (by omega)]
  · split
    · rfl
    · rw [if_neg (by omega), if_pos (by omega)]

/-! ### The last place -/

section
variable {num den : ℕ} {r : ℚ}

/-- The place that gives the mantissa of a quotient its 53 bits. -/
theorem exists_place (hden : 0 < den) (hr : (num : ℚ) = r * den) (hpos : 0 < r) :
    ∃ place : ℤ, 2 ^ (place + 52) ≤ r ∧ r < 2 ^ (place + 53) ∧
      lastPlace num den = max place (-1074) := by
  have hdenq : (0 : ℚ) < den := by exact_mod_cast hden
  have hnum : 0 < num := by
    have : (0 : ℚ) < num := by rw [hr]; positivity
    exact_mod_cast this
  have hnumLow : ((2 : ℚ) ^ (num.log2 : ℤ)) ≤ num := by
    rw [zpow_natCast]
    exact_mod_cast Nat.log2_self_le (Nat.ne_of_gt hnum)
  have hnumHigh : (num : ℚ) < 2 ^ ((num.log2 : ℤ) + 1) := by
    rw [← Nat.cast_succ, zpow_natCast]
    exact_mod_cast Nat.lt_log2_self
  have hdenLow : ((2 : ℚ) ^ (den.log2 : ℤ)) ≤ den := by
    rw [zpow_natCast]
    exact_mod_cast Nat.log2_self_le (Nat.ne_of_gt hden)
  have hdenHigh : (den : ℚ) < 2 ^ ((den.log2 : ℤ) + 1) := by
    rw [← Nat.cast_succ, zpow_natCast]
    exact_mod_cast Nat.lt_log2_self
  set guess : ℤ := (num.log2 : ℤ) - den.log2 - 53 with hguess
  have hlow : (2 : ℚ) ^ (guess + 52) ≤ r := by
    refine le_of_mul_le_mul_right ?_ hdenq
    calc (2 : ℚ) ^ (guess + 52) * den ≤ 2 ^ (guess + 52) * 2 ^ ((den.log2 : ℤ) + 1) :=
          mul_le_mul_of_nonneg_left hdenHigh.le (two_zpow_pos _).le
      _ = 2 ^ (num.log2 : ℤ) := by
          rw [← zpow_add₀ (by norm_num)]
          congr 1
          omega
      _ ≤ num := hnumLow
      _ = r * den := hr
  have hhigh : r < (2 : ℚ) ^ (guess + 54) := by
    refine lt_of_mul_lt_mul_right ?_ hdenq.le
    calc r * den = num := hr.symm
      _ < 2 ^ ((num.log2 : ℤ) + 1) := hnumHigh
      _ = 2 ^ (guess + 54) * 2 ^ (den.log2 : ℤ) := by
          rw [← zpow_add₀ (by norm_num)]
          congr 1
          omega
      _ ≤ 2 ^ (guess + 54) * den := mul_le_mul_of_nonneg_left hdenLow (two_zpow_pos _).le
  -- whether the guess is one too small is tested on naturals
  have hwide : num * Nat.pow 2 (-guess).toNat / (den * Nat.pow 2 guess.toNat) < Nat.pow 2 53 ↔
      r < 2 ^ (guess + 53) := by
    simp only [Nat.pow_eq]
    rw [Nat.div_lt_iff_lt_mul (by positivity), ← Nat.cast_lt (α := ℚ)]
    simp only [Nat.cast_mul, Nat.cast_pow, Nat.cast_ofNat]
    have hscale : (0 : ℚ) < den * 2 ^ (-guess).toNat := by positivity
    rw [hr, ← zpow_mul_pow_toNat (by norm_num) guess,
      show (guess + 53 : ℤ) = guess + (53 : ℕ) from rfl, two_zpow_add,
      show r * den * 2 ^ (-guess).toNat = r * (den * 2 ^ (-guess).toNat) by ring,
      show (2 : ℚ) ^ 53 * (den * (2 ^ guess * 2 ^ (-guess).toNat)) =
        2 ^ 53 * 2 ^ guess * (den * 2 ^ (-guess).toNat) by ring]
    exact mul_lt_mul_iff_left₀ hscale
  rw [lastPlace]
  simp only [← hguess, hwide]
  by_cases h : r < 2 ^ (guess + 53)
  · exact ⟨guess, hlow, h, by rw [if_pos h]⟩
  · refine ⟨guess + 1, ?_, ?_, by rw [if_neg h]⟩
    · rw [show guess + 1 + 52 = guess + 53 by omega]
      exact le_of_not_gt h
    · rw [show guess + 1 + 53 = guess + 54 by omega]
      exact hhigh

theorem lastPlace_eq {e : ℤ} (hden : 0 < den) (hr : (num : ℚ) = r * den) (hpos : 0 < r)
    (he : -1074 ≤ e) (hlow : e = -1074 ∨ 2 ^ (e + 52) ≤ r) (hhigh : r < 2 ^ (e + 53)) :
    lastPlace num den = e := by
  obtain ⟨place, hp, hp', heq⟩ := exists_place hden hr hpos
  have habove : place + 52 < e + 53 :=
    (zpow_lt_zpow_iff_right₀ (by norm_num : (1 : ℚ) < 2)).mp (hp.trans_lt hhigh)
  rw [heq]
  rcases hlow with rfl | hlow
  · exact max_eq_right (by omega)
  · have hbelow : e + 52 < place + 53 :=
      (zpow_lt_zpow_iff_right₀ (by norm_num : (1 : ℚ) < 2)).mp (hlow.trans_lt hp')
    rw [show place = e by omega]
    exact max_eq_left he

/-- **The bits of a quotient** of which the last place and the rounded mantissa are known. -/
theorem nearestBits_eq {e : ℤ} {k : ℕ} (hden : 0 < den) (hr : (num : ℚ) = r * den) (hpos : 0 < r)
    (he : -1074 ≤ e) (hlow : e = -1074 ∨ 2 ^ (e + 52) ≤ r) (hhigh : r < 2 ^ (e + 53))
    (hdown : (2 * k - 1) * 2 ^ e ≤ 2 * r) (hup : 2 * r ≤ (2 * k + 1) * 2 ^ e)
    (htie : k % 2 = 0 ∨ (2 * k - 1) * 2 ^ e < 2 * r ∧ 2 * r < (2 * k + 1) * 2 ^ e) :
    nearestBits num den = min ((e + 1074).toNat * Nat.pow 2 52 + k) (2047 * Nat.pow 2 52) := by
  have hnum : num ≠ 0 := by
    rintro rfl
    have hdenq : (0 : ℚ) < den := by exact_mod_cast hden
    exact absurd hr (by rw [Nat.cast_zero]; positivity)
  have hscale : (0 : ℚ) < den * 2 ^ (-e).toNat := by
    have : (0 : ℚ) < den := by exact_mod_cast hden
    positivity
  -- quotient and mantissa in units of half a last place
  have hnumq : ((2 * (num * Nat.pow 2 (-e).toNat) : ℕ) : ℚ) = 2 * r * (den * 2 ^ (-e).toNat) := by
    simp only [Nat.pow_eq, Nat.cast_mul, Nat.cast_pow, Nat.cast_ofNat, hr]
    ring
  have hdenq : ((den * Nat.pow 2 e.toNat : ℕ) : ℚ) = 2 ^ e * (den * 2 ^ (-e).toNat) := by
    simp only [Nat.pow_eq, Nat.cast_mul, Nat.cast_pow, Nat.cast_ofNat,
      ← zpow_mul_pow_toNat (by norm_num : (2 : ℚ) ≠ 0) e]
    ring
  have hround : roundEven (num * Nat.pow 2 (-e).toNat) (den * Nat.pow 2 e.toNat) = k := by
    obtain ⟨c, hc⟩ : ∃ c : ℚ, c = den * 2 ^ (-e).toNat := ⟨_, rfl⟩
    rw [← hc] at hscale hnumq hdenq
    have hlowq := mul_le_mul_of_nonneg_right hdown hscale.le
    have hhighq := mul_le_mul_of_nonneg_right hup hscale.le
    refine roundEven_eq ?_ ?_ (Nat.mul_pos hden (Nat.pow_pos (by decide))) (htie.imp_right fun h => ?_)
    · rw [← Nat.cast_le (α := ℚ), Nat.cast_add, hnumq, Nat.cast_mul, Nat.cast_mul, hdenq]
      push_cast
      linarith
    · rw [← Nat.cast_le (α := ℚ), hnumq, Nat.cast_add, Nat.cast_mul, Nat.cast_mul, hdenq]
      push_cast
      linarith
    · have hlowq := mul_lt_mul_of_pos_right h.1 hscale
      have hhighq := mul_lt_mul_of_pos_right h.2 hscale
      rw [← Nat.cast_lt (α := ℚ), ← Nat.cast_lt (α := ℚ), Nat.cast_add, Nat.cast_add, hnumq,
        Nat.cast_mul, Nat.cast_mul, hdenq]
      push_cast
      constructor <;> linarith
  rw [nearestBits, if_neg hnum]
  simp only [lastPlace_eq hden hr hpos he hlow hhigh, hround]

end

/-! ### Intervals -/

/-- Whether a real rounds to a magnitude. -/
structure Dyadic.Admits (d : Dyadic) (r : ℚ) : Prop where
  low : (d.interval.low : ℚ) * 2 ^ (d.exponent - 2) ≤ r
  high : r ≤ d.interval.high * 2 ^ (d.exponent - 2)
  inside : d.interval.closed = true ∨
    (d.interval.low : ℚ) * 2 ^ (d.exponent - 2) < r ∧ r < d.interval.high * 2 ^ (d.exponent - 2)

/-- The greatest bits are those of infinity. -/
def infiniteBits : Nat := 2047 * Nat.pow 2 52

/-- **The magnitudes of finite numbers.**  The mantissa has 53 bits, or the exponent is the least
there is. -/
structure Dyadic.Finite (d : Dyadic) : Prop where
  least : -1074 ≤ d.exponent
  greatest : d.exponent ≤ 971
  size : d.mantissa < 2 ^ 53
  full : d.exponent = -1074 ∨ 2 ^ 52 ≤ d.mantissa

/-- Below infinity the exponent takes all the bits before the fraction. -/
theorem Dyadic.ofBits_of_lt {bits : ℕ} (h : bits < infiniteBits) : Dyadic.ofBits bits =
    if bits / 4503599627370496 = 0 then ⟨bits % 4503599627370496, -1074⟩
    else ⟨4503599627370496 + bits % 4503599627370496, (bits / 4503599627370496 : ℕ) - 1075⟩ := by
  have hpow : Nat.pow 2 52 = 4503599627370496 := by norm_num
  have hfield : Nat.pow 2 11 = 2048 := by norm_num
  rw [infiniteBits, hpow] at h
  have hbiased : bits / 4503599627370496 % 2048 = bits / 4503599627370496 :=
    Nat.mod_eq_of_lt (by omega)
  simp only [Dyadic.ofBits, hpow, hfield, hbiased]

theorem Dyadic.finite_ofBits {bits : ℕ} (h : bits < infiniteBits) : (Dyadic.ofBits bits).Finite := by
  rw [Dyadic.ofBits_of_lt h]
  rw [infiniteBits, show Nat.pow 2 52 = 4503599627370496 by norm_num] at h
  split
  · exact ⟨le_refl _, by simp, by simp only; omega, .inl rfl⟩
  · exact ⟨by simp only; omega, by simp only; omega, by simp only; omega, .inr (by simp only; omega)⟩

/-- The bits put together again. -/
theorem Dyadic.sum_ofBits {bits : ℕ} (h : bits < infiniteBits) :
    ((Dyadic.ofBits bits).exponent + 1074) * 2 ^ 52 + (Dyadic.ofBits bits).mantissa = bits := by
  rw [Dyadic.ofBits_of_lt h]
  split <;> push_cast <;> omega

section
variable {num den bits : ℕ} {r : ℚ}

/-- **What is admitted reads back.**  A quotient in the interval of a number rounds to it. -/
theorem nearestBits_of_admits (hbits : bits < infiniteBits) (hzero : bits ≠ 0)
    (hden : 0 < den) (hr : (num : ℚ) = r * den) (h : (Dyadic.ofBits bits).Admits r) :
    nearestBits num den = bits := by
  obtain ⟨hlow, hhigh, hinside⟩ := h
  obtain ⟨hmin, hmax, hsize, hnormal⟩ := Dyadic.finite_ofBits hbits
  have hsum := Dyadic.sum_ofBits hbits
  generalize Dyadic.ofBits bits = d at *
  obtain ⟨m, e⟩ := d
  simp only [Dyadic.interval, decide_eq_true_eq] at *
  have hpow : Nat.pow 2 52 = 4503599627370496 := by norm_num
  rw [infiniteBits, hpow] at hbits
  obtain ⟨u, hu⟩ : ∃ u : ℚ, u = 2 ^ (e - 2) := ⟨_, rfl⟩
  have hupos : 0 < u := hu ▸ two_zpow_pos _
  have hquarter : (2 : ℚ) ^ e = 4 * u := by
    rw [hu, show (4 : ℚ) = 2 ^ 2 by norm_num, ← two_zpow_add]
    congr 1
    omega
  have h53 : (2 : ℚ) ^ (e + 53) = 2 ^ 55 * u := by
    rw [show e + 53 = e + (53 : ℕ) from rfl, two_zpow_add, hquarter]
    ring
  have h52 : (2 : ℚ) ^ (e + 52) = 2 ^ 54 * u := by
    rw [show e + 52 = e + (52 : ℕ) from rfl, two_zpow_add, hquarter]
    ring
  rw [← hu] at hlow hhigh hinside
  have hmpos : 0 < m := by omega
  have hsizeq : (m : ℚ) + 1 ≤ 2 ^ 53 := by exact_mod_cast hsize
  have hhighlt : r < 2 ^ (e + 53) := by
    rw [h53]
    push_cast at hhigh
    nlinarith
  have hnarrow : ((4 * m - if m = Nat.pow 2 52 ∧ e > -1074 then 1 else 2 : ℕ) : ℚ) =
      4 * m - if m = Nat.pow 2 52 ∧ e > -1074 then 1 else 2 := by
    split <;> rw [Nat.cast_sub (by omega)] <;> push_cast <;> rfl
  rw [hnarrow] at hlow hinside
  have hrpos : 0 < r := by
    refine lt_of_lt_of_le (mul_pos ?_ hupos) hlow
    have hm : (1 : ℚ) ≤ m := by exact_mod_cast hmpos
    split <;> linarith
  by_cases hsub : e = -1074 ∨ 2 ^ (e + 52) ≤ r
  · -- the last place is that of the number
    have hdown : (4 * (m : ℚ) - 2) * u ≤
        (4 * m - if m = Nat.pow 2 52 ∧ e > -1074 then 1 else 2) * u := by
      refine mul_le_mul_of_nonneg_right ?_ hupos.le
      split <;> linarith
    push_cast at hhigh hinside
    rw [nearestBits_eq (k := m) hden hr hrpos hmin hsub hhighlt (by rw [hquarter]; linarith)
      (by rw [hquarter]; linarith)
      (hinside.imp_right fun h => by rw [hquarter]; constructor <;> linarith [h.1, h.2]), hpow]
    exact (Nat.min_eq_left (by omega)).trans (by omega)
  · -- just below a power of two the mantissa is rounded up to it
    obtain ⟨hleast, hbelow⟩ := not_or.mp hsub
    rw [h52, not_le] at hbelow
    obtain rfl : m = 2 ^ 52 := by
      by_contra hne
      have hm : (2 : ℚ) ^ 52 + 1 ≤ m := by
        exact_mod_cast (show 2 ^ 52 + 1 ≤ m by omega)
      rw [if_neg fun h => hne h.1] at hlow
      nlinarith
    have hnarrow : (2 ^ 52 = Nat.pow 2 52 ∧ e > -1074) := ⟨by norm_num, by omega⟩
    rw [if_pos hnarrow] at hlow
    push_cast at hlow
    have hhalf : (2 : ℚ) ^ (e - 1) = 2 * u := by
      rw [hu, show e - 1 = e - 2 + 1 by omega, two_zpow_succ]
    have hplace : ∀ n : ℕ, (2 : ℚ) ^ (e - 1 + n) = 2 ^ n * (2 * u) := fun n => by
      rw [two_zpow_add, hhalf]
    rw [nearestBits_eq (e := e - 1) (k := 2 ^ 53) hden hr hrpos (by omega)
      (.inr (by rw [show e - 1 + 52 = e - 1 + (52 : ℕ) from rfl, hplace]; linarith))
      (by rw [show e - 1 + 53 = e - 1 + (53 : ℕ) from rfl, hplace]; linarith)
      (by rw [hhalf]; push_cast; linarith) (by rw [hhalf]; push_cast; linarith)
      (.inl (by norm_num))]
    rw [hpow]
    exact (Nat.min_eq_left (by omega)).trans (by omega)

end

end Stencil.Number
