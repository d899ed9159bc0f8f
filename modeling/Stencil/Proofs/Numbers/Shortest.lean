import Stencil.Proofs.Numbers.Digits
import Stencil.Proofs.Numbers.Nearest

/-!
# Numbers — the shortest digits

The shortest decimal of a number lies in its interval: `Dyadic.admits_shortest`.  A grid with a hit
was tested, and the exact value lies in every interval of its own.
-/

namespace Stencil.Number

/-! ### What the test admits -/

theorem Dyadic.admits_of_readsBack {d : Dyadic} {grid : ℤ} {n : ℕ} (h : d.readsBack grid n = true) :
    d.Admits (n * 10 ^ grid) := by
  obtain ⟨scale, hscale⟩ : ∃ scale : ℚ,
      scale = 2 ^ (-(d.exponent - 2)).toNat * 10 ^ (-grid).toNat := ⟨_, rfl⟩
  have hpos : 0 < scale := by rw [hscale]; positivity
  have hleft : ((n * Nat.pow 10 grid.toNat * Nat.pow 2 (-(d.exponent - 2)).toNat : ℕ) : ℚ) =
      n * 10 ^ grid * scale := by
    simp only [Nat.pow_eq, Nat.cast_mul, Nat.cast_pow, Nat.cast_ofNat, hscale,
      ← zpow_mul_pow_toNat (by norm_num : (10 : ℚ) ≠ 0) grid]
    ring
  have hend : ∀ k : ℕ, ((k * (Nat.pow 2 (d.exponent - 2).toNat * Nat.pow 10 (-grid).toNat) : ℕ) : ℚ)
      = k * 2 ^ (d.exponent - 2) * scale := by
    intro k
    simp only [Nat.pow_eq, Nat.cast_mul, Nat.cast_pow, Nat.cast_ofNat, hscale,
      ← zpow_mul_pow_toNat (by norm_num : (2 : ℚ) ≠ 0) (d.exponent - 2)]
    ring
  simp only [Dyadic.readsBack, Bool.and_eq_true, Bool.or_eq_true, decide_eq_true_eq, beq_iff_eq,
    ← Nat.cast_lt (α := ℚ), ← Nat.cast_inj (R := ℚ), hleft, hend, mul_lt_mul_iff_left₀ hpos,
    mul_left_inj' hpos.ne'] at h
  obtain ⟨hlow, hhigh⟩ := h
  refine ⟨hlow.elim le_of_lt fun h => h.2.le, hhigh.elim le_of_lt fun h => h.2.le, ?_⟩
  rcases hlow with hlow | ⟨hclosed, -⟩
  · rcases hhigh with hhigh | ⟨hclosed, -⟩
    · exact .inr ⟨hlow, hhigh⟩
    · exact .inl hclosed
  · exact .inl hclosed

/-- A magnitude itself rounds to it. -/
theorem Dyadic.admits_self {d : Dyadic} (h : d.mantissa ≠ 0) :
    d.Admits (d.mantissa * 2 ^ d.exponent) := by
  obtain ⟨u, hu⟩ : ∃ u : ℚ, u = 2 ^ (d.exponent - 2) := ⟨_, rfl⟩
  have hpos : 0 < u := hu ▸ two_zpow_pos _
  have hself : (2 : ℚ) ^ d.exponent = 4 * u := by
    rw [hu, show (4 : ℚ) = 2 ^ 2 by norm_num, ← two_zpow_add]
    congr 1
    omega
  have hlow : (d.interval.low : ℚ) + 1 ≤ 4 * d.mantissa := by
    have : d.interval.low + 1 ≤ 4 * d.mantissa := by
      simp only [Dyadic.interval]
      split <;> omega
    exact_mod_cast this
  have hhigh : (d.interval.high : ℚ) = 4 * d.mantissa + 2 := by
    simp only [Dyadic.interval]
    push_cast
    rfl
  have hbelow : (d.interval.low : ℚ) * u < d.mantissa * 2 ^ d.exponent := by
    rw [hself]
    nlinarith
  have habove : (d.mantissa : ℚ) * 2 ^ d.exponent < d.interval.high * u := by
    rw [hself, hhigh]
    nlinarith
  rw [hu] at hbelow habove
  exact ⟨hbelow.le, habove.le, .inr ⟨hbelow, habove⟩⟩

theorem Dyadic.admits_of_onGrid? {d : Dyadic} {point : ℤ} {count : ℕ} {hit : ℕ × ℤ}
    (h : d.onGrid? point count = some hit) : d.Admits (hit.1 * 10 ^ hit.2) := by
  simp only [Dyadic.onGrid?] at h
  split at h
  · rename_i hbelow hup
    cases h
    split
    · exact admits_of_readsBack hbelow
    · exact admits_of_readsBack hup
  · rename_i hbelow hup
    cases h
    exact admits_of_readsBack hbelow
  · rename_i hbelow hup
    cases h
    exact admits_of_readsBack hup
  · cases h

/-- The exact decimal value. -/
theorem exact_value (m : ℕ) (e : ℤ) :
    ((m * Nat.pow 2 e.toNat * Nat.pow 5 (-e).toNat : ℕ) : ℚ) * 10 ^ min e 0 = m * 2 ^ e := by
  simp only [Nat.pow_eq, Nat.cast_mul, Nat.cast_pow, Nat.cast_ofNat]
  have hfive := zpow_mul_pow_toNat (by norm_num : (5 : ℚ) ≠ 0) e
  rcases le_total 0 e with h | h
  · obtain ⟨k, rfl⟩ := Int.eq_ofNat_of_zero_le h
    rw [min_eq_right h, Int.toNat_neg_natCast, Int.toNat_natCast, zpow_natCast]
    simp
  · rw [min_eq_left h, Int.toNat_of_nonpos h, pow_zero, mul_one] at *
    rw [show (10 : ℚ) = 2 * 5 by norm_num, mul_zpow]
    calc (m : ℚ) * 5 ^ (-e).toNat * (2 ^ e * 5 ^ e) = m * 2 ^ e * (5 ^ e * 5 ^ (-e).toNat) := by ring
      _ = m * 2 ^ e := by rw [hfive, mul_one]

theorem Dyadic.admits_search {d : Dyadic} (hd : d.mantissa ≠ 0) (point : ℤ) (left count : ℕ) :
    d.Admits ((d.search point left count).1 * 10 ^ (d.search point left count).2) := by
  induction left generalizing count with
  | zero =>
      rw [Dyadic.search]
      simp only [exact_value]
      exact admits_self hd
  | succ left ih =>
      rw [Dyadic.search]
      split
      · rename_i hit hhit
        exact admits_of_onGrid? hhit
      · exact ih (count + 1)

/-! ### Decimals -/

/-- What a decimal is worth. -/
def Decimal.value (d : Decimal) : ℚ :=
  Number.value 10 d.digits * 10 ^ (d.point - d.digits.length)

/-- Whether a decimal is written with digits, at least one. -/
structure Decimal.Written (d : Decimal) : Prop where
  digits : d.digits.all Char.isDigit = true
  nonempty : d.digits ≠ []

theorem dropZeros_append {digits : List Char} (h : value 10 digits ≠ 0) :
    dropZeros digits ≠ [] ∧ ∃ count, digits = dropZeros digits ++ List.replicate count '0' := by
  have hsplit : digits = (digits.reverse.dropWhile (· == '0')).reverse ++
      (digits.reverse.takeWhile (· == '0')).reverse := by
    rw [← List.reverse_append, List.takeWhile_append_dropWhile, List.reverse_reverse]
  obtain ⟨count, hzeros⟩ : ∃ count, (digits.reverse.takeWhile (· == '0')).reverse =
      List.replicate count '0' := by
    refine ⟨_, List.eq_replicate_iff.mpr ⟨rfl, fun c hc => ?_⟩⟩
    exact beq_iff_eq.mp (List.all_eq_true.mp List.all_takeWhile c (List.mem_reverse.mp hc))
  rw [hzeros] at hsplit
  rw [dropZeros]
  split
  · rename_i hnone
    rw [hnone, List.nil_append] at hsplit
    exact absurd (hsplit ▸ value_zeros count) h
  · rename_i hsome
    exact ⟨hsome, count, hsplit⟩

theorem Dyadic.interval_low_pos {d : Dyadic} (hd : d.mantissa ≠ 0) : 0 < d.interval.low := by
  simp only [Dyadic.interval]
  split <;> omega

/-- **The shortest decimal of a number** is written with digits and rounds to the number. -/
theorem Dyadic.admits_shortest {d : Dyadic} (hd : d.mantissa ≠ 0) :
    d.shortest.Written ∧ d.Admits d.shortest.value := by
  have hadmits := Dyadic.admits_search hd d.point 17 1
  obtain ⟨n, grid, hsearch⟩ : ∃ n grid, d.search d.point 17 1 = (n, grid) := ⟨_, _, rfl⟩
  rw [hsearch] at hadmits
  have hn : n ≠ 0 := by
    rintro rfl
    have hpos : (0 : ℚ) < d.interval.low * 2 ^ (d.exponent - 2) :=
      mul_pos (by exact_mod_cast interval_low_pos hd) (two_zpow_pos _)
    have := hpos.trans_le hadmits.low
    simp at this
  obtain ⟨hne, count, hsplit⟩ := @dropZeros_append (decimalDigits n)
    (by rwa [value_decimalDigits])
  have hdigits := isDigit_decimalDigits n
  rw [hsplit, List.all_append, Bool.and_eq_true] at hdigits
  -- the zeros left out at the end are in the power of ten
  have hvalue : d.shortest.value = n * 10 ^ grid := by
    have hnat : n = value 10 (dropZeros (decimalDigits n)) * 10 ^ count := by
      conv_lhs => rw [← value_decimalDigits n, hsplit, value_append_zeros]
    have hlength : ((decimalDigits n).length : ℤ) = (dropZeros (decimalDigits n)).length + count := by
      conv_lhs => rw [hsplit, List.length_append, List.length_replicate]
      push_cast
      rfl
    simp only [Dyadic.shortest, hsearch, Decimal.value]
    conv_rhs => rw [hnat]
    rw [hlength, show grid + (((dropZeros (decimalDigits n)).length : ℤ) + count) -
      (dropZeros (decimalDigits n)).length = grid + count by omega,
      zpow_add₀ (by norm_num), zpow_natCast]
    push_cast
    ring
  refine ⟨⟨?_, ?_⟩, hvalue ▸ hadmits⟩ <;> simp only [Dyadic.shortest, hsearch]
  · exact hdigits.1
  · exact hne

end Stencil.Number
