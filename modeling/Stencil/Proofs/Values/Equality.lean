import Mathlib
import Stencil.Proofs.Runs.Text
import Stencil.Script.Operator

/-!
# Values — equality

`==` converts one side after the other until two values of one form are left.  What it comes to can
be said without the order of these steps: `undefined` and `null` equal each other and nothing else,
references equal themselves, and all else is compared after conversion to primitive values, as texts
if both sides are texts and otherwise as numbers (`looseEqual_iff`).

Three rounds are enough for any two values (`looseEqualWithin?_three`).  The conversions end if no
array contains itself.
-/

namespace Stencil.Script

/-! ### Numbers -/

theorem beq_comm_float (x y : Float) : (x == y) = (y == x) := by
  rw [Bool.eq_iff_iff, Float.beq_iff_ne_nan_and_eq, Float.beq_iff_ne_nan_and_eq]
  tauto

/-- Truth values are equal as numbers when they are the same. -/
theorem number_bool_beq (s : Store) (a b : Bool) :
    (s.number (.bool a) == s.number (.bool b)) = (a == b) := by
  simp only [Store.number]
  cases a <;> cases b <;> decide +kernel

/-! ### Without steps -/

/-- Whether two primitive values agree: as texts if both are texts, and otherwise as numbers. -/
def agree (s : Store) : Value → Value → Bool
  | .string a, .string b => a == b
  | p, q => s.number p == s.number q

theorem agree_comm (s : Store) (p q : Value) : agree s p q = agree s q p := by
  cases p with
  | string a =>
      cases q with
      | string b => exact Bool.beq_comm
      | _ => exact beq_comm_float _ _
  | _ => cases q <;> exact beq_comm_float _ _

/-- What `==` comes to, without steps. -/
def equalForms (s : Store) (v w : Value) : Bool :=
  if v.isNullish || w.isNullish then v.isNullish && w.isNullish
  else if v.isReference && w.isReference then strictEqual v w
  else agree s (s.primitive v) (s.primitive w)

/-- **Three rounds are enough**, for each pair of forms. -/
theorem looseEqualWithin?_three (s : Store) (v w : Value) :
    looseEqualWithin? s 3 v w = some (equalForms s v w) := by
  cases v <;> cases w <;> rfl

theorem looseEqual_eq (s : Store) (v w : Value) : looseEqual s v w = equalForms s v w := by
  rw [looseEqual, looseEqualWithin?_three, Option.getD_some]

/-! ### References -/

theorem strictEqual_comm (v w : Value) : strictEqual v w = strictEqual w v := by
  cases v <;> cases w <;> first | rfl | exact Bool.beq_comm | exact beq_comm_float _ _

theorem strictEqual_iff_of_isReference {v w : Value} (hv : v.isReference = true)
    (hw : w.isReference = true) : strictEqual v w = true ↔ v = w := by
  cases v <;> cases hv <;> cases w <;> cases hw <;> simp [strictEqual]

/-! ### Equality -/

theorem equalForms_comm (s : Store) (v w : Value) : equalForms s v w = equalForms s w v := by
  simp only [equalForms, Bool.or_comm w.isNullish, Bool.and_comm w.isNullish,
    Bool.and_comm w.isReference, strictEqual_comm w, agree_comm s (s.primitive w)]

/-- Values of one form are equal in both ways or in none. -/
theorem equalForms_eq_strictEqual (s : Store) {v w : Value} (h : v.ctorIdx = w.ctorIdx) :
    equalForms s v w = strictEqual v w := by
  cases v with
  | bool a =>
      cases w with
      | bool b => exact number_bool_beq s a b
      | _ => cases h
  | _ => cases w <;> first | rfl | cases h

theorem ctorIdx_eq_of_strictEqual {v w : Value} (h : strictEqual v w = true) :
    v.ctorIdx = w.ctorIdx := by
  cases v <;> cases w <;> first | rfl | cases h

theorem equalForms_iff (s : Store) (v w : Value) : equalForms s v w = true ↔
    (v.isNullish = true ∧ w.isNullish = true) ∨ (v.isNullish = false ∧ w.isNullish = false ∧
      ((v.isReference = true ∧ w.isReference = true ∧ v = w) ∨
        (¬ (v.isReference = true ∧ w.isReference = true) ∧
          agree s (s.primitive v) (s.primitive w) = true))) := by
  rw [equalForms]
  by_cases hnull : (v.isNullish || w.isNullish) = true
  · rw [if_pos hnull]
    cases hv : v.isNullish <;> cases hw : w.isNullish <;> simp_all
  · rw [if_neg hnull]
    obtain ⟨hv, hw⟩ : v.isNullish = false ∧ w.isNullish = false := by simpa using hnull
    by_cases href : v.isReference = true ∧ w.isReference = true
    · rw [if_pos (by rw [href.1, href.2]; rfl), strictEqual_iff_of_isReference href.1 href.2]
      simp [hv, hw, href]
    · rw [if_neg (by rwa [Bool.and_eq_true])]
      simp only [hv, hw, href, Bool.false_eq_true, false_and, false_or, true_and, not_false_eq_true]
      refine (or_iff_right fun h => href ⟨h.1, h.2.1⟩).symm

/-- **Equality of values.**  If no array in the two values contains itself, all conversions end and
`==` is decided in three rounds.  It holds between `undefined` and `null`, between a reference and
itself, and between two other values, not both references, that agree as primitive values.  So it
does not depend on the order of the two values, follows from `===`, and is the same as `===` for two
values of one form. -/
theorem looseEqual_iff {s : Store} {v w : Value} (hv : s.Acyclic v) (hw : s.Acyclic w) :
    ((s.textWithin? (s.arrays.size + 1) v).isSome ∧ (s.textWithin? (s.arrays.size + 1) w).isSome ∧
      looseEqualWithin? s 3 v w = some (looseEqual s v w)) ∧
    (looseEqual s v w = true ↔
      (v.isNullish = true ∧ w.isNullish = true) ∨ (v.isNullish = false ∧ w.isNullish = false ∧
        ((v.isReference = true ∧ w.isReference = true ∧ v = w) ∨
          (¬ (v.isReference = true ∧ w.isReference = true) ∧
            agree s (s.primitive v) (s.primitive w) = true)))) ∧
    looseEqual s v w = looseEqual s w v ∧
    (strictEqual v w = true → looseEqual s v w = true) ∧
    (v.ctorIdx = w.ctorIdx → looseEqual s v w = strictEqual v w) := by
  rw [looseEqual_eq, looseEqual_eq, looseEqualWithin?_three]
  refine ⟨⟨Store.isSome_textWithin?_of_acyclic hv, Store.isSome_textWithin?_of_acyclic hw, rfl⟩,
    equalForms_iff s v w, equalForms_comm s v w, fun h => ?_, equalForms_eq_strictEqual s⟩
  rw [equalForms_eq_strictEqual s (ctorIdx_eq_of_strictEqual h), h]

/-- A store with the array `[[1]]`. -/
def nestedArrays : Store :=
  { Store.empty with arrays := #[#[.array 1], #[.number 1]] }

/-- In it an array holds only later ones. -/
theorem lt_of_transGen_nestedArrays {a b : Ref} (h : Relation.TransGen nestedArrays.Holds a b) :
    a < b := by
  have holds : ∀ {a b : Ref}, nestedArrays.Holds a b → a < b := by
    intro a b hab
    match a with
    | 0 => simp_all [Store.Holds, Store.items, nestedArrays]
    | 1 => simp_all [Store.Holds, Store.items, nestedArrays]
    | a + 2 => simp [Store.Holds, Store.items, nestedArrays] at hab
  induction h with
  | single h => exact holds h
  | tail _ h ih => exact Nat.lt_trans ih (holds h)

/-- `[[1]] == 1`, after an array became a text and the text a number. -/
theorem looseEqual_iff_nestedArrays : nestedArrays.Acyclic (.array 0) ∧
    nestedArrays.Acyclic (.number 1) ∧ (nestedArrays.textWithin? 3 (.array 0)).isSome ∧
    looseEqual nestedArrays (.array 0) (.number 1) = true ∧
    looseEqual nestedArrays (.number 1) (.array 0) = true := by
  have harray : nestedArrays.Acyclic (.array 0) :=
    fun _ _ _ _ h => Nat.lt_irrefl _ (lt_of_transGen_nestedArrays h)
  have hnumber : nestedArrays.Acyclic (.number 1) := fun _ _ h => by cases h
  obtain ⟨⟨htext, -, -⟩, hiff, hcomm, -, -⟩ := looseEqual_iff harray hnumber
  have hequal := hiff.mpr (.inr ⟨rfl, rfl, .inr ⟨by decide, by decide +kernel⟩⟩)
  exact ⟨harray, hnumber, htext, hequal, hcomm ▸ hequal⟩

end Stencil.Script
