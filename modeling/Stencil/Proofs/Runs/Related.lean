import Mathlib.Data.List.Forall2
import Stencil.Script.Evaluate

/-!
# Runs — values that are related one by one

Two runs are compared by a relation `R` of the values of one to those of the other.  Lists and fields
are related if their values are, and what is done to both sides in the same way leaves them related.
Where something may be missing, `R` has to relate `undefined` to itself.

* `RelatedValues.argument`, `RelatedValues.set`, `RelatedValues.dropLast`: lists.
* `RelatedFields.get?`, `RelatedFields.put`: fields.
* `related_itemAt`, `related_setItem`, `related_resize`: the elements of an array.
* `related_kept`: what a filter keeps.
-/

namespace Stencil.Script

section
variable (R : Value → Value → Prop)

/-- Lists of values that are related one by one. -/
abbrev RelatedValues : List Value → List Value → Prop :=
  List.Forall₂ R

/-- Fields with one key and values that are related. -/
def RelatedField (p q : String × Value) : Prop :=
  p.1 = q.1 ∧ R p.2 q.2

/-- The same keys in the same order, with values that are related. -/
abbrev RelatedFields : Fields → Fields → Prop :=
  List.Forall₂ (RelatedField R)

/-- Values with keys, both of which are related. -/
def RelatedEntry (p q : Value × Value) : Prop :=
  R p.1 q.1 ∧ R p.2 q.2

end

variable {R : Value → Value → Prop}

/-! ### Lists -/

namespace RelatedValues
variable {l l' : List Value} (h : RelatedValues R l l')
include h

theorem tail : RelatedValues R l.tail l'.tail := by
  cases h with
  | nil => exact .nil
  | cons _ h => exact h

theorem set (i : Nat) {v w : Value} (hv : R v w) : RelatedValues R (l.set i v) (l'.set i w) := by
  induction h generalizing i with
  | nil => exact .nil
  | cons h t ih =>
      cases i with
      | zero => exact .cons hv t
      | succ i => exact .cons h (ih i)

theorem dropLast : RelatedValues R l.dropLast l'.dropLast := by
  rw [List.dropLast_eq_take, List.dropLast_eq_take, h.length_eq]
  exact List.forall₂_take _ h

variable (hu : R .undefined .undefined)
include hu

theorem getD (i : Nat) : R (l.getD i .undefined) (l'.getD i .undefined) := by
  induction h generalizing i with
  | nil => exact hu
  | cons hv _ ih =>
      cases i with
      | zero => exact hv
      | succ i => exact ih i

theorem argument (i : Nat) : R (argument l i) (argument l' i) :=
  h.getD hu i

theorem headD : R (l.headD .undefined) (l'.headD .undefined) := by
  cases h with
  | nil => exact hu
  | cons h _ => exact h

theorem getLast : R (l.getLast?.getD .undefined) (l'.getLast?.getD .undefined) := by
  rw [List.getLast?_eq_getElem?, List.getLast?_eq_getElem?, ← List.getD_eq_getElem?_getD,
    ← List.getD_eq_getElem?_getD, h.length_eq]
  exact h.getD hu _

end RelatedValues

theorem relatedValues_undefined (hu : R .undefined .undefined) (n : Nat) :
    RelatedValues R (List.replicate n .undefined) (List.replicate n .undefined) :=
  List.forall₂_same.mpr fun v hv => by
    rw [List.eq_of_mem_replicate hv]
    exact hu

/-- What a filter keeps of two lists, by what was returned for their elements. -/
theorem related_kept (truthy : ∀ {v w}, R v w → v.truthy = w.truthy) {xs ys : List Value}
    (hx : RelatedValues R xs ys) : ∀ {rs rs' : List Value}, RelatedValues R rs rs' →
      RelatedValues R (((xs.zip rs).filter fun p => p.2.truthy).map Prod.fst)
        (((ys.zip rs').filter fun p => p.2.truthy).map Prod.fst) := by
  induction hx with
  | nil => exact fun _ => .nil
  | cons hv _ ih =>
      intro rs rs' hr
      cases hr with
      | nil => exact .nil
      | @cons r r' _ _ hr hrs =>
          simp only [List.zip_cons_cons, List.filter_cons, truthy hr]
          split
          · exact .cons hv (ih hrs)
          · exact ih hrs

/-! ### Fields -/

namespace RelatedFields
variable {fields fields' : Fields} (h : RelatedFields R fields fields')
include h

theorem get? (hu : R .undefined .undefined) (key : String) :
    R ((fields.get? key).getD .undefined) ((fields'.get? key).getD .undefined) := by
  induction h with
  | nil => exact hu
  | @cons p q l l' hp _ ih =>
      obtain ⟨k, v⟩ := p
      obtain ⟨k', w⟩ := q
      obtain ⟨hk, hv⟩ := hp
      obtain rfl : k = k' := hk
      simp only [Fields.get?, List.lookup_cons] at ih ⊢
      cases key == k with
      | true => exact hv
      | false => exact ih

theorem put (key : String) {v w : Value} (hv : R v w) :
    RelatedFields R (fields.put key v) (fields'.put key w) := by
  induction h with
  | nil => exact .cons ⟨rfl, hv⟩ .nil
  | @cons p q l l' hp ht ih =>
      obtain ⟨k, x⟩ := p
      obtain ⟨k', y⟩ := q
      obtain ⟨hk, hx⟩ := hp
      obtain rfl : k = k' := hk
      simp only [Fields.put]
      split
      · exact .cons ⟨rfl, hv⟩ ht
      · exact .cons ⟨rfl, hx⟩ ih

theorem keys : fields.keys = fields'.keys := by
  induction h with
  | nil => rfl
  | cons hp _ ih => exact congrArg₂ List.cons hp.1 ih

end RelatedFields

/-! ### Elements of an array -/

section
variable {xs ys : Array Value} (h : RelatedValues R xs.toList ys.toList)
include h

theorem related_size : xs.size = ys.size := by
  simpa only [Array.length_toList] using h.length_eq

theorem related_itemAt (hu : R .undefined .undefined) (hn : ∀ x, R (.number x) (.number x))
    (key : String) : R (itemAt xs key) (itemAt ys key) := by
  have hget (i : Nat) : R (xs.getD i .undefined) (ys.getD i .undefined) := by
    have := h.getD hu i
    simpa only [Array.getD_eq_getD_getElem?, List.getD_eq_getElem?_getD, Array.getElem?_toList]
      using this
  rw [itemAt, itemAt, related_size h]
  split
  · exact hn _
  · split
    · exact hget _
    · exact hu

theorem related_setItem (hu : R .undefined .undefined) (i : Nat) {v w : Value} (hv : R v w) :
    RelatedValues R (setItem xs i v).toList (setItem ys i w).toList := by
  rw [setItem, setItem, related_size h]
  split
  · rw [Array.toList_setIfInBounds, Array.toList_setIfInBounds]
    exact RelatedValues.set h i hv
  · simp only [Array.toList_push, Array.toList_append, Array.toList_replicate]
    exact List.rel_append (List.rel_append h (relatedValues_undefined hu _)) (.cons hv .nil)

theorem related_resize (hu : R .undefined .undefined) (length : Nat) :
    RelatedValues R (resize xs length).toList (resize ys length).toList := by
  rw [resize, resize, related_size h]
  simp only [Array.toList_append, Array.toList_replicate, Array.take_eq_extract,
    Array.toList_extract, List.extract_eq_take_drop]
  exact List.rel_append (List.forall₂_take _ (List.forall₂_drop _ h)) (relatedValues_undefined hu _)

theorem related_last (hu : R .undefined .undefined) :
    R (xs.back?.getD .undefined) (ys.back?.getD .undefined) := by
  rw [← Array.getLast?_toList, ← Array.getLast?_toList]
  exact RelatedValues.getLast h hu

theorem related_concat {f g : Value → Array Value}
    (hfg : ∀ {v w}, R v w → RelatedValues R (f v).toList (g w).toList) {vs ws : List Value}
    (hv : RelatedValues R vs ws) :
    RelatedValues R (vs.foldl (fun items v => items ++ f v) xs).toList
      (ws.foldl (fun items w => items ++ g w) ys).toList := by
  induction hv generalizing xs ys with
  | nil => exact h
  | cons hv _ ih =>
      refine ih ?_
      rw [Array.toList_append, Array.toList_append]
      exact List.rel_append h (hfg hv)

theorem related_indexed (hn : ∀ x, R (.number x) (.number x)) : List.Forall₂ (RelatedEntry R)
    (xs.toList.zipIdx.map fun (v, i) => (v, .number (Number.ofNat i)))
    (ys.toList.zipIdx.map fun (v, i) => (v, .number (Number.ofNat i))) := by
  suffices ∀ {l l'} (k : Nat), RelatedValues R l l' → List.Forall₂ (RelatedEntry R)
      ((l.zipIdx k).map fun p => (p.1, .number (Number.ofNat p.2)))
      ((l'.zipIdx k).map fun p => (p.1, .number (Number.ofNat p.2))) from this 0 h
  intro l l' k h
  induction h generalizing k with
  | nil => exact .nil
  | cons hv _ ih => exact .cons ⟨hv, hn _⟩ (ih (k + 1))

end

end Stencil.Script
