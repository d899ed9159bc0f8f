import Mathlib
import Stencil.Number.Reading
import Stencil.Number.Written
import Stencil.Proofs.Numbers.Finite
import Stencil.Proofs.Numbers.Shortest

/-!
# Numbers — numerals

`Numeral cs m e`: the text `cs` is a numeral for `m · 10^e`.  A numeral is read as the number nearest
to what it is worth, and the written form of a finite number without a sign is a numeral that is
read as this number: `numeral_text`.
-/

namespace Stencil.Number

/-! ### Numerals -/

/-- The exponent at the end of a numeral. -/
inductive Exponent : List Char → ℤ → Prop where
  | none : Exponent [] 0
  | above {digits : List Char} : digits.all Char.isDigit = true → digits ≠ [] →
      Exponent ('e' :: '+' :: digits) (value 10 digits)
  | below {digits : List Char} : digits.all Char.isDigit = true → digits ≠ [] →
      Exponent ('e' :: '-' :: digits) (-(value 10 digits : ℕ))

/-- **Numerals**: digits, perhaps a point and digits after it, perhaps an exponent. -/
inductive Numeral : List Char → ℕ → ℤ → Prop where
  | whole {before tail : List Char} {e : ℤ} : before.all Char.isDigit = true → before ≠ [] →
      Exponent tail e → Numeral (before ++ tail) (value 10 before) e
  | pointed {before after tail : List Char} {e : ℤ} : before.all Char.isDigit = true →
      before ≠ [] → after.all Char.isDigit = true → Exponent tail e →
      Numeral (before ++ '.' :: (after ++ tail)) (value 10 (before ++ after)) (e - after.length)

/-- The characters of an exponent. -/
theorem Exponent.forall {P : Char → Prop} {tail : List Char} {e : ℤ} (h : Exponent tail e)
    (digit : ∀ c, c.isDigit = true → P c) (mark : ∀ c ∈ ['e', '+', '-'], P c) : ∀ c ∈ tail, P c := by
  cases h with
  | none => nofun
  | above hdigits _ | below hdigits _ =>
      intro c hc
      rcases List.mem_cons.mp hc with rfl | hc
      · exact mark _ (by decide)
      · rcases List.mem_cons.mp hc with rfl | hc
        · exact mark _ (by decide)
        · exact digit c (List.all_eq_true.mp hdigits c hc)

/-- The characters of a numeral. -/
theorem Numeral.forall {P : Char → Prop} {cs : List Char} {m : ℕ} {e : ℤ} (h : Numeral cs m e)
    (digit : ∀ c, c.isDigit = true → P c) (mark : ∀ c ∈ ['e', '+', '-', '.'], P c) :
    ∀ c ∈ cs, P c := by
  have digits : ∀ {l : List Char}, l.all Char.isDigit = true → ∀ c ∈ l, P c :=
    fun hl c hc => digit c (List.all_eq_true.mp hl c hc)
  have exponent : ∀ {tail : List Char} {e : ℤ}, Exponent tail e → ∀ c ∈ tail, P c :=
    fun ht => ht.forall digit fun c hc => mark c (List.mem_append_left ['.'] hc)
  cases h with
  | whole hbefore _ htail =>
      intro c hc
      rcases List.mem_append.mp hc with hc | hc
      · exact digits hbefore c hc
      · exact exponent htail c hc
  | pointed hbefore _ hafter htail =>
      intro c hc
      rcases List.mem_append.mp hc with hc | hc
      · exact digits hbefore c hc
      · rcases List.mem_cons.mp hc with rfl | hc
        · exact mark _ (by decide)
        · rcases List.mem_append.mp hc with hc | hc
          · exact digits hafter c hc
          · exact exponent htail c hc

/-- An exponent goes on neither with digits nor with a point. -/
theorem Exponent.apart {tail : List Char} {e : ℤ} (h : Exponent tail e) :
    ∀ c ∈ tail.head?, c.isDigit = false ∧ c ≠ '.' := by
  cases h <;> intro c hc <;> cases hc <;> decide

theorem Exponent.exponent? {tail : List Char} {e : ℤ} (h : Exponent tail e) :
    exponent? tail = some e := by
  cases h with
  | none => rfl
  | above hdigits hne | below hdigits hne =>
      rw [Number.exponent?, if_pos (by decide)]
      simp only [value?_of_isDigit hne hdigits]
      rfl

theorem spanDigits_append {before rest : List Char} (h : before.all Char.isDigit = true)
    (hrest : ∀ c ∈ rest.head?, c.isDigit = false) : spanDigits (before ++ rest) = (before, rest) := by
  have hall : ∀ c ∈ before, c.isDigit = true := fun c hc => List.all_eq_true.mp h c hc
  have hstop : rest.takeWhile Char.isDigit = [] ∧ rest.dropWhile Char.isDigit = rest := by
    cases rest with
    | nil => exact ⟨rfl, rfl⟩
    | cons c rest =>
        have hc : ¬ c.isDigit = true := by rw [hrest c rfl]; decide
        exact ⟨List.takeWhile_cons_of_neg hc, List.dropWhile_cons_of_neg hc⟩
  rw [spanDigits, List.takeWhile_append_of_pos hall, List.dropWhile_append_of_pos hall, hstop.1,
    hstop.2, List.append_nil]

/-! ### Reading numerals -/

theorem exists_digits (cs : List Char) : ∃ before rest, cs = before ++ rest ∧
    before.all Char.isDigit = true ∧ ∀ c ∈ rest.head?, c.isDigit = false := by
  refine ⟨cs.takeWhile Char.isDigit, cs.dropWhile Char.isDigit,
    List.takeWhile_append_dropWhile.symm, List.all_takeWhile, fun c hc => ?_⟩
  have := List.head?_dropWhile_not Char.isDigit cs
  rw [Option.mem_def.mp hc] at this
  simpa using this

/-- A text is digits, perhaps a point and digits after it, and what no digit begins. -/
theorem exists_point (cs : List Char) :
    (∃ before tail, cs = before ++ tail ∧ before.all Char.isDigit = true ∧
      ∀ c ∈ tail.head?, c.isDigit = false ∧ c ≠ '.') ∨
    ∃ before after tail, cs = before ++ '.' :: (after ++ tail) ∧ before.all Char.isDigit = true ∧
      after.all Char.isDigit = true ∧ ∀ c ∈ tail.head?, c.isDigit = false := by
  obtain ⟨before, rest, rfl, hbefore, hrest⟩ := exists_digits cs
  by_cases hpoint : '.' ∈ rest.head?
  · obtain ⟨rest, rfl⟩ := List.head?_eq_some_iff.mp hpoint
    obtain ⟨after, tail, rfl, hafter, htail⟩ := exists_digits rest
    exact .inr ⟨before, after, tail, rfl, hbefore, hafter, htail⟩
  · exact .inl ⟨before, rest, rfl, hbefore, fun c hc =>
      ⟨hrest c hc, fun heq => hpoint (heq ▸ hc)⟩⟩

/-- Digits stand before a text, and one of them before all of it. -/
theorem exists_digit {before : List Char} (h : before.all Char.isDigit = true) (hne : before ≠ [])
    (rest : List Char) : ∃ c more, before ++ rest = c :: more ∧ c.isDigit = true := by
  obtain ⟨c, more, rfl⟩ := List.exists_cons_of_ne_nil hne
  exact ⟨c, more ++ rest, rfl, List.all_eq_true.mp h c List.mem_cons_self⟩

section

variable {before after tail : List Char}

theorem unsigned?_whole (hbefore : before.all Char.isDigit = true)
    (htail : ∀ c ∈ tail.head?, c.isDigit = false ∧ c ≠ '.') :
    unsigned? (before ++ tail) = if before.isEmpty then none else
      (exponent? tail).map (scaled (value 10 before)) := by
  rw [unsigned?, spanDigits_append hbefore fun c hc => (htail c hc).1]
  simp only
  split
  · exact absurd rfl (htail '.' rfl).2
  · simp

theorem unsigned?_pointed (hbefore : before.all Char.isDigit = true)
    (hafter : after.all Char.isDigit = true) (htail : ∀ c ∈ tail.head?, c.isDigit = false) :
    unsigned? (before ++ '.' :: (after ++ tail)) =
      if before.isEmpty && after.isEmpty then none else (exponent? tail).map fun e =>
        scaled (value 10 (before ++ after)) (e - after.length) := by
  have hpoint : ∀ c ∈ ('.' :: (after ++ tail)).head?, c.isDigit = false := by
    rintro c ⟨⟩
    decide
  simp only [unsigned?, spanDigits_append hbefore hpoint, spanDigits_append hafter htail]

end

/-- **What a numeral is read as.** -/
theorem Numeral.unsigned? {cs : List Char} {m : ℕ} {e : ℤ} (h : Numeral cs m e) :
    unsigned? cs = some (scaled m e) := by
  cases h with
  | whole hbefore hne htail =>
      rw [unsigned?_whole hbefore htail.apart, if_neg (by simpa using hne), htail.exponent?,
        Option.map_some]
  | pointed hbefore hne hafter htail =>
      rw [unsigned?_pointed hbefore hafter fun c hc => (htail.apart c hc).1, if_neg (by simp [hne]),
        htail.exponent?, Option.map_some]

/-- A digit stands first in a numeral. -/
theorem Numeral.begins {cs : List Char} {m : ℕ} {e : ℤ} (h : Numeral cs m e) :
    ∃ c rest, cs = c :: rest ∧ c.isDigit = true := by
  cases h with
  | whole hbefore hne _ => exact exists_digit hbefore hne _
  | pointed hbefore hne _ _ => exact exists_digit hbefore hne _

/-- What a digit or a point begins has no sign. -/
theorem signed?_cons {c : Char} (h : c.isDigit = true ∨ c = '.') (rest : List Char) :
    signed? (c :: rest) = unsigned? (c :: rest) := by
  rw [signed?.eq_def]
  split
  · rename_i heq
    rw [(List.cons.inj heq).1] at h
    exact absurd h (by decide)
  · rename_i heq
    rw [(List.cons.inj heq).1] at h
    exact absurd h (by decide)
  · rfl

/-! ### Written decimals -/

theorem Decimal.numeral_positional {d : Decimal} (h : d.Written) :
    ∃ m e, Numeral d.positional m e ∧ (m : ℚ) * 10 ^ e = d.value := by
  rw [Decimal.positional]
  -- the point stands before the digits, after them or among them
  split
  · rename_i hpoint
    have hzeros : (List.replicate (-d.point).toNat '0').all Char.isDigit = true := by
      simp
    have hvalue : Number.value 10 (['0'] ++ (List.replicate (-d.point).toNat '0' ++ d.digits)) =
        Number.value 10 d.digits := by
      rw [show ['0'] = List.replicate 1 '0' from rfl, value_zeros_append, value_zeros_append]
    have hnumeral := @Numeral.pointed ['0'] (List.replicate (-d.point).toNat '0' ++ d.digits) [] 0
      (by decide) (by decide) (by rw [List.all_append, hzeros, h.digits]; rfl) .none
    rw [List.append_nil, hvalue, List.length_append, List.length_replicate] at hnumeral
    refine ⟨_, _, hnumeral, ?_⟩
    rw [Decimal.value]
    congr 2
    omega
  · rename_i hpoint
    split
    · rename_i hcount
      have hzeros : (List.replicate (d.point - d.digits.length).toNat '0').all Char.isDigit = true := by
        simp
      have hnumeral := @Numeral.whole
        (d.digits ++ List.replicate (d.point - d.digits.length).toNat '0') [] 0
        (by rw [List.all_append, hzeros, h.digits]; rfl)
        (List.append_ne_nil_of_left_ne_nil h.nonempty _) .none
      rw [List.append_nil, value_append_zeros] at hnumeral
      refine ⟨_, _, hnumeral, ?_⟩
      rw [Decimal.value, zpow_zero, mul_one, Nat.cast_mul, Nat.cast_pow, Nat.cast_ofNat,
        ← zpow_natCast, Int.toNat_of_nonneg (by omega)]
    · rename_i hcount
      have hdigits := h.digits
      rw [← List.take_append_drop d.point.toNat d.digits, List.all_append, Bool.and_eq_true]
        at hdigits
      have hlength : d.point.toNat < d.digits.length := by omega
      have hnumeral := Numeral.pointed hdigits.1
        (List.ne_nil_of_length_pos (by rw [List.length_take]; omega)) hdigits.2 .none
      rw [List.append_nil, List.take_append_drop, List.length_drop] at hnumeral
      refine ⟨_, _, hnumeral, ?_⟩
      rw [Decimal.value]
      congr 2
      omega

theorem Decimal.numeral_scientific {d : Decimal} (h : d.Written) :
    ∃ m e, Numeral d.scientific m e ∧ (m : ℚ) * 10 ^ e = d.value := by
  have hexponent : Exponent ('e' :: (if d.point > 0 then '+' else '-') ::
      decimalDigits (d.point - 1).natAbs) (d.point - 1) := by
    have hdigits := isDigit_decimalDigits (d.point - 1).natAbs
    have hne := List.ne_nil_of_length_pos (length_decimalDigits_pos (d.point - 1).natAbs)
    split
    · have := Exponent.above hdigits hne
      rwa [value_decimalDigits, Int.natAbs_of_nonneg (by omega)] at this
    · have := Exponent.below hdigits hne
      rwa [value_decimalDigits, Int.ofNat_natAbs_of_nonpos (by omega), neg_neg] at this
  have hdigits := h.digits
  rw [Decimal.scientific]
  split
  · rename_i first second rest hsplit
    rw [hsplit, List.all_cons, Bool.and_eq_true] at hdigits
    have hnumeral := @Numeral.pointed [first] _ _ _ (by rw [List.all_cons, hdigits.1]; rfl)
      (by simp) hdigits.2 hexponent
    refine ⟨_, _, hnumeral, ?_⟩
    rw [Decimal.value, hsplit]
    congr 2
    rw [show (first :: second :: rest).length = (second :: rest).length + 1 from rfl]
    push_cast
    omega
  · rename_i digits hother
    have hone : d.digits.length = 1 := by
      cases hsplit : d.digits with
      | nil => exact absurd hsplit h.nonempty
      | cons first rest =>
          cases rest with
          | nil => rfl
          | cons second rest => exact absurd hsplit (hother first second rest)
    refine ⟨_, _, Numeral.whole hdigits h.nonempty hexponent, ?_⟩
    rw [Decimal.value, hone]
    rfl

/-! ### Read decimals -/

theorem two_zpow_lt {a b : ℕ} (h : Nat.pow 2 a < Nat.pow 10 b) :
    (2 : ℚ) ^ (a : ℤ) < 10 ^ (b : ℤ) := by
  rw [zpow_natCast, zpow_natCast]
  exact_mod_cast h

theorem ten_zpow_lt : (10 : ℚ) ^ (-330 : ℤ) < 2 ^ (-1076 : ℤ) := by
  rw [zpow_neg, zpow_neg]
  exact inv_strictAnti₀ (two_zpow_pos _) (two_zpow_lt (a := 1076) (b := 330) (by decide +kernel))

theorem Dyadic.mantissa_ne_zero {bits : ℕ} (hbits : bits < infiniteBits) (hzero : bits ≠ 0) :
    (Dyadic.ofBits bits).mantissa ≠ 0 := by
  have hsum := Dyadic.sum_ofBits hbits
  have hfull := (Dyadic.finite_ofBits hbits).full
  omega

/-- What rounds to a finite number lies between the least and the greatest of them. -/
theorem Dyadic.Admits.range {d : Dyadic} {r : ℚ} (hd : d.Finite) (hlow : 0 < d.interval.low)
    (h : d.Admits r) : (10 : ℚ) ^ (-330 : ℤ) < r ∧ r < 10 ^ (310 : ℤ) := by
  have hleast := hd.least
  have hgreatest := hd.greatest
  have hsize := hd.size
  have hhigh : (d.interval.high : ℚ) ≤ 2 ^ 55 := by
    have : d.interval.high ≤ 2 ^ 55 := by
      simp only [Dyadic.interval]
      omega
    exact_mod_cast this
  constructor
  · calc (10 : ℚ) ^ (-330 : ℤ) < 2 ^ (-1076 : ℤ) := ten_zpow_lt
      _ ≤ 2 ^ (d.exponent - 2) := zpow_le_zpow_right₀ (by norm_num) (by omega)
      _ = 1 * 2 ^ (d.exponent - 2) := (one_mul _).symm
      _ ≤ d.interval.low * 2 ^ (d.exponent - 2) :=
          mul_le_mul_of_nonneg_right (by exact_mod_cast hlow) (two_zpow_pos _).le
      _ ≤ r := h.low
  · calc r ≤ d.interval.high * 2 ^ (d.exponent - 2) := h.high
      _ ≤ 2 ^ 55 * 2 ^ (d.exponent - 2) := mul_le_mul_of_nonneg_right hhigh (two_zpow_pos _).le
      _ ≤ 2 ^ 55 * 2 ^ (969 : ℤ) := mul_le_mul_of_nonneg_left
          (zpow_le_zpow_right₀ (by norm_num) (by omega)) (by norm_num)
      _ = 2 ^ (1024 : ℤ) := by
          rw [← zpow_natCast, ← zpow_add₀ (by norm_num)]
          rfl
      _ < 10 ^ (310 : ℤ) := two_zpow_lt (by decide +kernel)

/-- A decimal that is neither too great nor too small is computed. -/
theorem scaled_eq_nearest {m : ℕ} {e : ℤ} (hlow : (10 : ℚ) ^ (-330 : ℤ) < m * 10 ^ e)
    (hhigh : (m : ℚ) * 10 ^ e < 10 ^ (310 : ℤ)) :
    scaled m e = nearest (m * Nat.pow 10 e.toNat) (Nat.pow 10 (-e).toNat) := by
  have hten : (0 : ℚ) < 10 ^ e := zpow_pos (by norm_num) e
  have hm : m ≠ 0 := by
    rintro rfl
    rw [Nat.cast_zero, zero_mul] at hlow
    exact absurd hlow (not_lt.mpr (zpow_pos (by norm_num) _).le)
  have hleast : -330 < ((decimalDigits m).length : ℤ) + e := by
    have hlt : (m : ℚ) < 10 ^ ((decimalDigits m).length : ℤ) := by
      rw [zpow_natCast]
      exact_mod_cast lt_pow_decimalDigits m
    refine (zpow_lt_zpow_iff_right₀ (by norm_num : (1 : ℚ) < 10)).mp (hlow.trans ?_)
    rw [zpow_add₀ (by norm_num)]
    exact mul_lt_mul_of_pos_right hlt hten
  have hgreatest : ((decimalDigits m).length : ℤ) - 1 + e < 310 := by
    have hle : (10 : ℚ) ^ (((decimalDigits m).length : ℤ) - 1) ≤ m := by
      rw [← Nat.cast_pred (length_decimalDigits_pos m), zpow_natCast]
      exact_mod_cast pow_le_of_decimalDigits (Nat.pos_of_ne_zero hm)
    refine (zpow_lt_zpow_iff_right₀ (by norm_num : (1 : ℚ) < 10)).mp (lt_of_le_of_lt ?_ hhigh)
    rw [zpow_add₀ (by norm_num)]
    exact mul_le_mul_of_nonneg_right hle hten.le
  rw [scaled, if_neg (by omega), if_neg (by omega)]

/-- **A decimal in the interval of a number is read as this number.** -/
theorem scaled_of_admits {bits m : ℕ} {e : ℤ} (hbits : bits < infiniteBits) (hzero : bits ≠ 0)
    (h : (Dyadic.ofBits bits).Admits (m * 10 ^ e)) : scaled m e = Float.ofBits (UInt64.ofNat bits) := by
  obtain ⟨hlow, hhigh⟩ := h.range (Dyadic.finite_ofBits hbits)
    (Dyadic.interval_low_pos (Dyadic.mantissa_ne_zero hbits hzero))
  have hquotient : ((m * Nat.pow 10 e.toNat : ℕ) : ℚ) = m * 10 ^ e * (Nat.pow 10 (-e).toNat : ℕ) := by
    simp only [Nat.pow_eq, Nat.cast_mul, Nat.cast_pow, Nat.cast_ofNat,
      ← zpow_mul_pow_toNat (by norm_num : (10 : ℚ) ≠ 0) e]
    ring
  have hden : 0 < Nat.pow 10 (-e).toNat := Nat.pow_pos (by decide)
  rw [scaled_eq_nearest hlow hhigh, nearest, nearestBits_of_admits hbits hzero hden hquotient h]

/-- **A number as text is read as the number.** -/
theorem numeral_text {x : Float} (hfinite : x.isFinite = true) (hsign : signBit x = false) :
    ∃ m e, Numeral (text x).toList m e ∧ scaled m e = x := by
  have hself : Float.ofBits (UInt64.ofNat x.toBits.toNat) = x := by
    rw [UInt64.ofNat_toNat, Float.ofBits_toBits]
  rw [text, not_isNaN_of_isFinite hfinite, not_isInf_of_isFinite hfinite, hsign]
  simp only [Bool.false_eq_true, if_false, List.nil_append]
  split
  · rename_i hx
    rw [(bits_eq_zero_iff hsign).mp hx] at hself
    refine ⟨0, 0, @Numeral.whole ['0'] [] 0 (by decide) (by decide) .none, ?_⟩
    rw [← hself]
    decide
  · rename_i hx
    have hzero : x.toBits.toNat ≠ 0 := fun h => hx ((bits_eq_zero_iff hsign).mpr h)
    have hbits := lt_infiniteBits hfinite hsign
    obtain ⟨hwritten, hadmits⟩ := Dyadic.admits_shortest (Dyadic.mantissa_ne_zero hbits hzero)
    obtain ⟨m, e, hnumeral, hvalue⟩ : ∃ m e, Numeral (magnitudeText x) m e ∧
        (m : ℚ) * 10 ^ e = (Dyadic.ofFloat x).shortest.value := by
      rw [magnitudeText]
      split
      · exact Decimal.numeral_positional hwritten
      · exact Decimal.numeral_scientific hwritten
    refine ⟨m, e, by rwa [String.toList_ofList], ?_⟩
    rw [scaled_of_admits hbits hzero (hvalue ▸ hadmits), hself]

end Stencil.Number
