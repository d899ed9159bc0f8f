import Mathlib.Tactic.Ring
import Mathlib.Tactic.Linarith
import Stencil.Number.Digits

/-!
# Numbers — the digits of a natural

`decimalDigits` writes a natural and `value` reads it: `value_decimalDigits`.  How many digits there
are says how great the natural is: `pow_le_of_decimalDigits`, `lt_pow_decimalDigits`.
-/

namespace Stencil.Number

/-! ### Values of digits -/

theorem value_foldl (base : Nat) (digits : List Char) (n : Nat) :
    digits.foldl (fun n c => n * base + (digitValue? base c).getD 0) n =
      n * base ^ digits.length + value base digits := by
  induction digits generalizing n with
  | nil => simp [value]
  | cons c digits ih =>
      have hvalue : value base (c :: digits) =
          (0 * base + (digitValue? base c).getD 0) * base ^ digits.length + value base digits := ih _
      rw [List.foldl_cons, ih, hvalue, List.length_cons]
      ring

theorem value_append (base : Nat) (l r : List Char) :
    value base (l ++ r) = value base l * base ^ r.length + value base r := by
  rw [value, List.foldl_append, value_foldl]
  rfl

theorem value_cons (base : Nat) (c : Char) (l : List Char) :
    value base (c :: l) = (digitValue? base c).getD 0 * base ^ l.length + value base l := by
  rw [value, List.foldl_cons, value_foldl]
  simp

theorem value_zeros (count : Nat) : value 10 (List.replicate count '0') = 0 := by
  induction count with
  | zero => rfl
  | succ count ih =>
      have hzero : (digitValue? 10 '0').getD 0 = 0 := by decide
      rw [List.replicate_succ, value_cons, ih, hzero, Nat.zero_mul]

theorem value_zeros_append (count : Nat) (l : List Char) :
    value 10 (List.replicate count '0' ++ l) = value 10 l := by
  rw [value_append, value_zeros, Nat.zero_mul, Nat.zero_add]

theorem value_append_zeros (l : List Char) (count : Nat) :
    value 10 (l ++ List.replicate count '0') = value 10 l * 10 ^ count := by
  rw [value_append, value_zeros, List.length_replicate, Nat.add_zero]

/-- What a sequence of digits is worth is less than what its length allows. -/
theorem value_lt {base : ℕ} (hbase : 0 < base) (l : List Char) :
    value base l < base ^ l.length := by
  induction l with
  | nil => exact Nat.one_pos
  | cons c l ih =>
      have digit : (digitValue? base c).getD 0 + 1 ≤ base := by
        rw [digitValue?]
        cases h : Option.filter _ _ with
        | none => exact hbase
        | some d =>
            exact Nat.succ_le_of_lt (of_decide_eq_true (Option.filter_eq_some_iff.mp h).2)
      rw [value_cons, List.length_cons]
      calc (digitValue? base c).getD 0 * base ^ l.length + value base l
          < ((digitValue? base c).getD 0 + 1) * base ^ l.length := by
            rw [Nat.add_one_mul]
            exact Nat.add_lt_add_left ih _
        _ ≤ base * base ^ l.length := Nat.mul_le_mul_right _ digit
        _ = base ^ (l.length + 1) := (Nat.pow_succ').symm

/-! ### Written naturals -/

theorem decimalDigits_of_lt {n : Nat} (h : n < 10) : decimalDigits n = [n.digitChar] :=
  Nat.toDigits_of_lt_base h

theorem decimalDigits_of_le {n : Nat} (h : 10 ≤ n) :
    decimalDigits n = decimalDigits (n / 10) ++ [(n % 10).digitChar] := by
  have hmod : n % 10 < 10 := Nat.mod_lt _ (by decide)
  have hsplit := Nat.toDigits_append_toDigits (b := 10) (by decide)
    (Nat.div_pos h (by decide)) hmod
  rw [Nat.div_add_mod, Nat.toDigits_of_lt_base hmod] at hsplit
  exact hsplit.symm

theorem digitChar_spec {n : Nat} (h : n < 10) :
    n.digitChar.isDigit = true ∧ digitValue? 10 n.digitChar = some n := by
  revert n
  decide

/-- **The digits of a natural** are decimal digits, and their value is the natural. -/
theorem decimalDigits_spec (n : Nat) :
    (decimalDigits n).all Char.isDigit = true ∧ value 10 (decimalDigits n) = n := by
  induction n using Nat.strongRecOn with
  | ind n ih =>
      by_cases h : n < 10
      · obtain ⟨hdigit, hvalue⟩ := digitChar_spec h
        rw [decimalDigits_of_lt h, value_cons, hvalue]
        exact ⟨by simp [hdigit], by simp [value]⟩
      · have hle : 10 ≤ n := Nat.le_of_not_lt h
        obtain ⟨hdigits, hvalues⟩ := ih (n / 10) (Nat.div_lt_self (by omega) (by decide))
        obtain ⟨hdigit, hvalue⟩ := digitChar_spec (Nat.mod_lt n (show 0 < 10 by decide))
        rw [decimalDigits_of_le hle, value_append, value_cons, hvalue, hvalues]
        refine ⟨by simp [hdigits, hdigit], ?_⟩
        simp only [List.length_singleton, List.length_nil, value, List.foldl_nil, Option.getD_some]
        omega

theorem isDigit_decimalDigits (n : Nat) : (decimalDigits n).all Char.isDigit = true :=
  (decimalDigits_spec n).1

theorem value_decimalDigits (n : Nat) : value 10 (decimalDigits n) = n :=
  (decimalDigits_spec n).2

theorem lt_pow_decimalDigits (n : Nat) : n < 10 ^ (decimalDigits n).length := by
  have h := value_lt (by decide : 0 < 10) (decimalDigits n)
  rwa [value_decimalDigits] at h

theorem length_decimalDigits_pos (n : Nat) : 0 < (decimalDigits n).length := by
  by_cases h : n < 10
  · rw [decimalDigits_of_lt h]
    exact Nat.one_pos
  · rw [decimalDigits_of_le (Nat.le_of_not_lt h), List.length_append]
    exact Nat.succ_pos _

theorem pow_le_of_decimalDigits {n : Nat} (hn : 0 < n) : 10 ^ ((decimalDigits n).length - 1) ≤ n := by
  induction n using Nat.strongRecOn with
  | ind n ih =>
      by_cases h : n < 10
      · rw [decimalDigits_of_lt h]
        exact hn
      · have hle : 10 ≤ n := Nat.le_of_not_lt h
        have hpos : 0 < n / 10 := Nat.div_pos hle (by decide)
        have hrest := ih (n / 10) (Nat.div_lt_self hn (by decide)) hpos
        have hlength := length_decimalDigits_pos (n / 10)
        obtain ⟨k, hk⟩ : ∃ k, (decimalDigits (n / 10)).length = k + 1 := ⟨_, (Nat.succ_pred_eq_of_pos hlength).symm⟩
        rw [hk, Nat.add_sub_cancel] at hrest
        rw [decimalDigits_of_le hle, List.length_append, hk]
        calc 10 ^ (k + 1) = 10 ^ k * 10 := Nat.pow_succ ..
          _ ≤ n / 10 * 10 := Nat.mul_le_mul_right 10 hrest
          _ ≤ n := Nat.div_mul_le_self n 10

/-! ### Digits read back -/

theorem isDigit_iff {c : Char} : c.isDigit = true ↔ 48 ≤ c.toNat ∧ c.toNat ≤ 57 := by
  simp only [Char.isDigit, Bool.and_eq_true, decide_eq_true_eq, ge_iff_le, UInt32.le_iff_toNat_le]
  rfl

theorem digitValue?_of_isDigit {c : Char} (h : c.isDigit = true) :
    digitValue? 10 c = some (c.toNat - 48) := by
  obtain ⟨hlow, hhigh⟩ := isDigit_iff.mp h
  have hdigit : '0' ≤ c ∧ c ≤ '9' :=
    ⟨UInt32.le_iff_toNat_le.mpr hlow, UInt32.le_iff_toNat_le.mpr hhigh⟩
  rw [digitValue?, if_pos hdigit, Option.filter_some, show '0'.toNat = 48 from rfl,
    decide_eq_true (show c.toNat - 48 < 10 by omega)]
  rfl

theorem isSome_digitValue?_of_isDigit {c : Char} (h : c.isDigit = true) :
    (digitValue? 10 c).isSome = true := by
  rw [digitValue?_of_isDigit h]
  rfl

theorem isDigit_of_digitValue? {c : Char} (h : (digitValue? 10 c).isSome = true) :
    c.isDigit = true := by
  rw [digitValue?] at h
  by_cases hdigit : '0' ≤ c ∧ c ≤ '9'
  · exact isDigit_iff.mpr
      ⟨UInt32.le_iff_toNat_le.mp hdigit.1, UInt32.le_iff_toNat_le.mp hdigit.2⟩
  · -- letters are worth ten and more
    rw [if_neg hdigit] at h
    split at h
    · rw [Option.filter_some, decide_eq_false (by omega)] at h
      cases h
    · split at h
      · rw [Option.filter_some, decide_eq_false (by omega)] at h
        cases h
      · cases h

theorem value?_eq_some_iff {base n : Nat} {l : List Char} : value? base l = some n ↔
    l ≠ [] ∧ (∀ c ∈ l, (digitValue? base c).isSome = true) ∧ value base l = n := by
  have hdigits : (l.isEmpty || !l.all fun c => (digitValue? base c).isSome) = false ↔
      l ≠ [] ∧ ∀ c ∈ l, (digitValue? base c).isSome = true := by
    rw [Bool.or_eq_false_iff, Bool.not_eq_false', List.isEmpty_eq_false_iff, List.all_eq_true]
  rw [value?, ← and_assoc, ← hdigits]
  cases (l.isEmpty || !l.all fun c => (digitValue? base c).isSome) <;> simp

/-- Digits are read as what they are worth. -/
theorem value?_of_isDigit {l : List Char} (hne : l ≠ []) (h : l.all Char.isDigit = true) :
    value? 10 l = some (value 10 l) :=
  value?_eq_some_iff.mpr
    ⟨hne, fun c hc => isSome_digitValue?_of_isDigit (List.all_eq_true.mp h c hc), rfl⟩

theorem isDigit_of_value? {l : List Char} {n : Nat} (h : value? 10 l = some n) :
    l ≠ [] ∧ l.all Char.isDigit = true := by
  obtain ⟨hne, hdigits, -⟩ := value?_eq_some_iff.mp h
  exact ⟨hne, List.all_eq_true.mpr fun c hc => isDigit_of_digitValue? (hdigits c hc)⟩

end Stencil.Number
