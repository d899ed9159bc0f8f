import Mathlib
import Stencil.Proofs.Numbers.Order

/-!
# Numbers — where positional notation ends

A number is written positionally when its shortest decimal has its point in a certain range, and
these are the numbers from 1e-6 on and below 1e21, and zero (`positional_text_iff`).

The shortest decimal need not be worth the number.  But it is a value that rounds to the number, and
the values that round to different numbers stand in the order of the numbers (`Dyadic.Admits.lt`).
So a number below 1e21, which 10^21 rounds to, has no shortest decimal from 10^21 on. -/

namespace Stencil.Number

/-! ### Order of magnitudes -/

/-- What a magnitude is worth. -/
def Dyadic.value (d : Dyadic) : ℚ :=
  d.mantissa * 2 ^ d.exponent

theorem Dyadic.value_lt {a b : ℕ} (h : a < b) (hb : b < infiniteBits) :
    (Dyadic.ofBits a).value < (Dyadic.ofBits b).value := by
  have hsumA := sum_ofBits (h.trans hb)
  have hsumB := sum_ofBits hb
  obtain ⟨hleastA, -, hsizeA, hfullA⟩ := finite_ofBits (h.trans hb)
  obtain ⟨hleastB, -, hsizeB, hfullB⟩ := finite_ofBits hb
  rw [value, value]
  generalize ofBits a = p at *
  generalize ofBits b = q at *
  rcases lt_trichotomy p.exponent q.exponent with he | he | he
  · have hfull : 2 ^ 52 ≤ q.mantissa := by omega
    calc (p.mantissa : ℚ) * 2 ^ p.exponent < 2 ^ 53 * 2 ^ p.exponent :=
          mul_lt_mul_of_pos_right (by exact_mod_cast hsizeA) (two_zpow_pos _)
      _ = 2 ^ 52 * 2 ^ (p.exponent + 1) := by rw [two_zpow_succ]; ring
      _ ≤ 2 ^ 52 * 2 ^ q.exponent :=
          mul_le_mul_of_nonneg_left (zpow_le_zpow_right₀ (by norm_num) (by omega)) (by norm_num)
      _ ≤ q.mantissa * 2 ^ q.exponent :=
          mul_le_mul_of_nonneg_right (by exact_mod_cast hfull) (two_zpow_pos _).le
  · have hm : p.mantissa < q.mantissa := by omega
    rw [he]
    exact mul_lt_mul_of_pos_right (by exact_mod_cast hm) (two_zpow_pos _)
  · -- the bits would be in the other order
    omega

namespace Dyadic.Admits

variable {d : Dyadic} {r s t : ℚ}

/-- What lies between two admitted values is admitted. -/
theorem between (hr : d.Admits r) (ht : d.Admits t) (hrs : r ≤ s) (hst : s ≤ t) : d.Admits s := by
  refine ⟨hr.low.trans hrs, hst.trans ht.high, ?_⟩
  rcases hr.inside with hclosed | ⟨hlow, -⟩
  · exact .inl hclosed
  · rcases ht.inside with hclosed | ⟨-, hhigh⟩
    · exact .inl hclosed
    · exact .inr ⟨hlow.trans_le hrs, hst.trans_lt hhigh⟩

/-- No value is admitted by two numbers: it rounds to one. -/
theorem unique {a b : ℕ} (ha : a < infiniteBits) (hb : b < infiniteBits) (hzero : a ≠ 0)
    (hzero' : b ≠ 0) (hra : (ofBits a).Admits r) (hrb : (ofBits b).Admits r) : a = b := by
  have hpos : 0 < r := lt_of_lt_of_le (mul_pos
    (by exact_mod_cast interval_low_pos (mantissa_ne_zero ha hzero)) (two_zpow_pos _)) hra.low
  have hquotient : ((r.num.toNat : ℕ) : ℚ) = r * r.den := by
    rw [Rat.mul_den_eq_num, ← Int.cast_natCast, Int.toNat_of_nonneg (Rat.num_nonneg.mpr hpos.le)]
  rw [← nearestBits_of_admits ha hzero r.den_pos hquotient hra,
    nearestBits_of_admits hb hzero' r.den_pos hquotient hrb]

/-- **The values that round to numbers stand in the order of the numbers.** -/
theorem lt {a b : ℕ} (h : a < b) (hb : b < infiniteBits) (hzero : a ≠ 0)
    (hr : (ofBits a).Admits r) (hs : (ofBits b).Admits s) : r < s := by
  have ha : a < infiniteBits := h.trans hb
  have hzero' : b ≠ 0 := by omega
  have hownA : (ofBits a).Admits (ofBits a).value := admits_self (mantissa_ne_zero ha hzero)
  have hownB : (ofBits b).Admits (ofBits b).value := admits_self (mantissa_ne_zero hb hzero')
  have hvalue := value_lt h hb
  by_contra hle
  have hsr : s ≤ r := le_of_not_gt hle
  -- the two intervals would meet, in the first number's own value or in `s`
  refine absurd ?_ (Nat.ne_of_lt h)
  rcases le_total s (ofBits a).value with hsa | has
  · exact unique ha hb hzero hzero' hownA (hs.between hownB hsa hvalue.le)
  · exact unique ha hb hzero hzero' (hownA.between hr has hsr) hs

end Dyadic.Admits

/-! ### The place of the point -/

theorem Decimal.value_bounds {d : Decimal} (hne : d.digits ≠ [])
    (hlead : 10 ^ (d.digits.length - 1) ≤ Number.value 10 d.digits) :
    (10 : ℚ) ^ (d.point - 1) ≤ d.value ∧ d.value < 10 ^ d.point := by
  have hlength : 0 < d.digits.length := List.length_pos_of_ne_nil hne
  have hten : (0 : ℚ) < 10 ^ (d.point - d.digits.length) := zpow_pos (by norm_num) _
  constructor
  · calc (10 : ℚ) ^ (d.point - 1)
        = 10 ^ (d.digits.length - 1) * 10 ^ (d.point - d.digits.length) := by
          rw [← zpow_natCast, ← zpow_add₀ (by norm_num)]
          congr 1
          omega
      _ ≤ d.value := mul_le_mul_of_nonneg_right (by exact_mod_cast hlead) hten.le
  · calc d.value < 10 ^ d.digits.length * 10 ^ (d.point - d.digits.length) :=
          mul_lt_mul_of_pos_right (by exact_mod_cast value_lt (by decide : 0 < 10) d.digits) hten
      _ = 10 ^ d.point := by
          rw [← zpow_natCast, ← zpow_add₀ (by norm_num)]
          congr 1
          omega

/-- The first digit is no zero. -/
theorem pow_le_dropZeros {n : ℕ} (hn : n ≠ 0) :
    10 ^ ((dropZeros (decimalDigits n)).length - 1) ≤ value 10 (dropZeros (decimalDigits n)) := by
  obtain ⟨hne, count, hsplit⟩ := @dropZeros_append (decimalDigits n) (by rwa [value_decimalDigits])
  have hlength := List.length_pos_of_ne_nil hne
  have hdigits : (decimalDigits n).length = (dropZeros (decimalDigits n)).length + count := by
    conv_lhs => rw [hsplit, List.length_append, List.length_replicate]
  have hvalue : n = value 10 (dropZeros (decimalDigits n)) * 10 ^ count := by
    conv_lhs => rw [← value_decimalDigits n, hsplit, value_append_zeros]
  have hlead := pow_le_of_decimalDigits (Nat.pos_of_ne_zero hn)
  rw [hdigits, show (dropZeros (decimalDigits n)).length + count - 1 =
    (dropZeros (decimalDigits n)).length - 1 + count by omega, Nat.pow_add] at hlead
  exact Nat.le_of_mul_le_mul_right (hlead.trans (Nat.le_of_eq hvalue)) (Nat.pow_pos (by decide))

theorem Dyadic.search_ne_zero {d : Dyadic} (hd : d.mantissa ≠ 0) (point : ℤ) (left count : ℕ) :
    (d.search point left count).1 ≠ 0 := by
  intro hzero
  have hpos : (0 : ℚ) < d.interval.low * 2 ^ (d.exponent - 2) :=
    mul_pos (by exact_mod_cast interval_low_pos hd) (two_zpow_pos _)
  have hlow := hpos.trans_le (admits_search hd point left count).low
  rw [hzero, Nat.cast_zero, zero_mul] at hlow
  exact lt_irrefl _ hlow

/-- Where the point of the shortest decimal stands. -/
theorem Dyadic.point_shortest {d : Dyadic} (hd : d.mantissa ≠ 0) :
    (10 : ℚ) ^ (d.shortest.point - 1) ≤ d.shortest.value ∧
      d.shortest.value < 10 ^ d.shortest.point :=
  Decimal.value_bounds (admits_shortest hd).1.nonempty
    (pow_le_dropZeros (search_ne_zero hd d.point 17 1))

/-! ### The ends of the range -/

/-- The bits of 1e-6. -/
def leastPositional : ℕ := 0x3EB0C6F7A0B5ED8D

/-- The bits of 1e21. -/
def leastScientific : ℕ := 0x444B1AE4D6E2EF50

theorem admits_leastPositional : (Dyadic.ofBits leastPositional).Admits (10 ^ (-6 : ℤ)) := by
  have h := @Dyadic.admits_of_readsBack (Dyadic.ofBits leastPositional) (-6) 1 (by decide +kernel)
  rwa [Nat.cast_one, one_mul] at h

theorem admits_leastScientific : (Dyadic.ofBits leastScientific).Admits (10 ^ (21 : ℤ)) := by
  have h := @Dyadic.admits_of_readsBack (Dyadic.ofBits leastScientific) 21 1 (by decide +kernel)
  rwa [Nat.cast_one, one_mul] at h

theorem ten_zpow_lt_iff {a b : ℤ} : (10 : ℚ) ^ a < 10 ^ b ↔ a < b :=
  zpow_lt_zpow_iff_right₀ (by norm_num)

/-- **The range of positional notation**, on the bits of a number. -/
theorem isPositional_shortest_iff {bits : ℕ} (hbits : bits < infiniteBits) (hzero : bits ≠ 0) :
    (Dyadic.ofBits bits).shortest.isPositional = true ↔
      leastPositional ≤ bits ∧ bits < leastScientific := by
  have hd := Dyadic.mantissa_ne_zero hbits hzero
  have hadmits := (Dyadic.admits_shortest hd).2
  obtain ⟨hlow, hhigh⟩ := Dyadic.point_shortest hd
  simp only [Decimal.isPositional, Bool.and_eq_true, decide_eq_true_eq]
  -- at the ends themselves the intervals say nothing: there the digits are computed
  refine and_congr ?_ ?_
  · rcases lt_trichotomy bits leastPositional with h | rfl | h
    · have hvalue := hadmits.lt h (by decide +kernel) hzero admits_leastPositional
      have := ten_zpow_lt_iff.mp (hlow.trans_lt hvalue)
      omega
    · exact iff_of_true (by decide +kernel) (Nat.le_refl _)
    · have hvalue := admits_leastPositional.lt h hbits (by decide) hadmits
      have := ten_zpow_lt_iff.mp (hvalue.trans hhigh)
      omega
  · rcases lt_trichotomy bits leastScientific with h | rfl | h
    · have hvalue := hadmits.lt h (by decide +kernel) hzero admits_leastScientific
      have := ten_zpow_lt_iff.mp (hlow.trans_lt hvalue)
      omega
    · exact iff_of_false (by decide +kernel) (Nat.lt_irrefl _)
    · have hvalue := admits_leastScientific.lt h hbits (by decide) hadmits
      have := ten_zpow_lt_iff.mp (hvalue.trans hhigh)
      omega

/-! ### Texts -/

/-- Digits, at least one. -/
def Digits (cs : List Char) : Prop :=
  cs ≠ [] ∧ cs.all Char.isDigit = true

/-- **Positional notation**: digits, perhaps a point and digits after it, perhaps a minus before. -/
inductive Positional : List Char → Prop where
  | whole {sign before : List Char} : sign = [] ∨ sign = ['-'] → Digits before →
      Positional (sign ++ before)
  | pointed {sign before after : List Char} : sign = [] ∨ sign = ['-'] → Digits before →
      Digits after → Positional (sign ++ (before ++ '.' :: after))

theorem Digits.not_mem {cs : List Char} (h : Digits cs) : 'e' ∉ cs := by
  intro he
  exact absurd (List.all_eq_true.mp h.2 'e' he) (by decide)

/-- Positional notation has no exponent. -/
theorem Positional.not_mem {cs : List Char} (h : Positional cs) : 'e' ∉ cs := by
  have hsign : ∀ {sign : List Char}, sign = [] ∨ sign = ['-'] → 'e' ∉ sign := by
    rintro sign (rfl | rfl) <;> decide
  cases h with
  | whole hs hbefore =>
      rw [List.mem_append]
      rintro (he | he)
      · exact hsign hs he
      · exact hbefore.not_mem he
  | pointed hs hbefore hafter =>
      rw [List.mem_append, List.mem_append, List.mem_cons]
      rintro (he | he | he | he)
      · exact hsign hs he
      · exact hbefore.not_mem he
      · exact absurd he (by decide)
      · exact hafter.not_mem he

section
variable {d : Decimal} {sign : List Char}

theorem Decimal.positional_positional (h : d.Written) (hs : sign = [] ∨ sign = ['-']) :
    Positional (sign ++ d.positional) := by
  have hzeros : ∀ count, (List.replicate count '0').all Char.isDigit = true := by simp
  rw [Decimal.positional]
  by_cases hpoint : d.point ≤ 0
  · rw [if_pos hpoint]
    refine @Positional.pointed sign ['0'] _ hs ⟨by decide, by decide⟩ ⟨?_, ?_⟩
    · exact List.append_ne_nil_of_right_ne_nil _ h.nonempty
    · rw [List.all_append, hzeros, h.digits, Bool.true_and]
  · rw [if_neg hpoint]
    by_cases hcount : (d.digits.length : ℤ) ≤ d.point
    · rw [if_pos hcount]
      refine .whole hs ⟨List.append_ne_nil_of_left_ne_nil h.nonempty _, ?_⟩
      rw [List.all_append, hzeros, h.digits, Bool.true_and]
    · rw [if_neg hcount]
      have hdigits := h.digits
      rw [← List.take_append_drop d.point.toNat d.digits, List.all_append, Bool.and_eq_true]
        at hdigits
      refine .pointed hs ⟨List.ne_nil_of_length_pos ?_, hdigits.1⟩
        ⟨List.ne_nil_of_length_pos ?_, hdigits.2⟩
      · rw [List.length_take]
        omega
      · rw [List.length_drop]
        omega

theorem Decimal.not_positional_scientific : ¬ Positional (sign ++ d.scientific) := by
  intro h
  refine h.not_mem (List.mem_append_right _ ?_)
  rw [Decimal.scientific]
  split <;> simp

end

/-- **Where positional notation ends.** -/
theorem positional_text_iff {x : Float} (h : x.isFinite = true) :
    Positional (text x).toList ↔ (x == 0) = true ∨ (1e-6 : Float) ≤ x.abs ∧ x.abs < 1e21 := by
  have hbits := lt_infiniteBits (isFinite_abs h) (signBit_abs h)
  rw [text, not_isNaN_of_isFinite h, not_isInf_of_isFinite h,
    le_iff_bits (by decide +kernel) (isFinite_abs h) (by decide +kernel) (signBit_abs h),
    lt_iff_bits (isFinite_abs h) (by decide +kernel) (signBit_abs h) (by decide +kernel),
    show (1e-6 : Float).toBits.toNat = leastPositional by decide +kernel,
    show (1e21 : Float).toBits.toNat = leastScientific by decide +kernel]
  simp only [Bool.false_eq_true, if_false]
  by_cases hx : (x == 0) = true
  · rw [if_pos hx]
    exact iff_of_true (@Positional.whole [] ['0'] (.inl rfl) ⟨by decide, by decide⟩) (.inl hx)
  · have hzero : x.abs.toBits.toNat ≠ 0 := fun hbits => hx ((beq_zero_iff h).mpr hbits)
    have hmagnitude : Dyadic.ofFloat x = Dyadic.ofBits x.abs.toBits.toNat := (ofFloat_abs h).symm
    have hs : (if signBit x then ['-'] else []) = [] ∨ (if signBit x then ['-'] else []) = ['-'] := by
      cases signBit x
      · exact .inl rfl
      · exact .inr rfl
    rw [if_neg hx, String.toList_ofList, magnitudeText, hmagnitude]
    simp only [hx, Bool.false_eq_true, false_or, ← isPositional_shortest_iff hbits hzero]
    by_cases hd : (Dyadic.ofBits x.abs.toBits.toNat).shortest.isPositional = true
    · rw [if_pos hd]
      exact iff_of_true (Decimal.positional_positional
        (Dyadic.admits_shortest (Dyadic.mantissa_ne_zero hbits hzero)).1 hs) hd
    · rw [if_neg hd]
      exact iff_of_false Decimal.not_positional_scientific hd

end Stencil.Number
