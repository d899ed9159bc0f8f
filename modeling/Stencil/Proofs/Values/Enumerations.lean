import Stencil.Proofs.Numbers.Whole
import Stencil.Proofs.Sheets.Lines
import Stencil.Proofs.Twin.Data

/-!
# Values — enumerations

`for … in`, `_.keys`, `_.values`, `_.each` and `_.map` go over the same entries of a value, and `_.size`
is their count: `Enumerates`.

* `settledFields`: what a sequence of writes comes to, each key once.
* `Made.fields`: the object of a document or of a literal holds what its members come to.
* `enumerates_array`: the entries of an array are its elements by their indices.
* `enumerations_agree`: the same for objects and arrays alike.
-/

namespace Stencil.Script
open Json

/-! ### Writes -/

theorem evalFields_eq (parts : List (String × Expr)) (n : ℕ) (done : Fields) (env : Env) (s : Store) :
    evalFields n parts done env s = match evalAll n (parts.map Prod.snd) env s with
      | .ok values t =>
          .ok (((parts.map Prod.fst).zip values).foldl (fun all p => all.put p.1 p.2) done) t
      | .error e t => .error e t := by
  induction parts generalizing n done s with
  | nil => cases n <;> rfl
  | cons head rest ih =>
      obtain ⟨key, e⟩ := head
      cases n with
      | zero => rfl
      | succ n =>
          simp only [evalFields, List.map_cons, evalAll, run_bind]
          cases eval n e env s with
          | error e t => rfl
          | ok v t =>
              dsimp only
              rw [ih]
              cases evalAll n (rest.map Prod.snd) env t <;> rfl

/-- **Objects that have been made**, with the members as they were computed: that of a document, and
that of a literal. -/
inductive Made (s : Store) : Value → List (String × Value) → Store → Prop where
  | document {members : List (String × Document)} {written : List (String × Value)} {v : Value}
      {t u : Store} (hmembers : importMembers members s = .ok written u)
      (h : importDocument (.object members) s = .ok v t) : Made s v written t
  | literal {n : ℕ} {parts : List (String × Expr)} {env : Env} {values : List Value} {v : Value}
      {t u : Store} (hvalues : evalAll n (parts.map Prod.snd) env s = .ok values u)
      (h : eval (n + 1) (.object parts) env s = .ok v t) :
      Made s v ((parts.map Prod.fst).zip values) t

theorem Made.fields {s t : Store} {v : Value} {written : List (String × Value)}
    (h : Made s v written t) :
    ∃ o, v = .object o ∧ o < t.objects.size ∧ t.fields o = writtenFields written := by
  have made (u : Store) (fields : Fields) (v : Value) (t : Store)
      (hnew : newObject fields u = .ok v t) :
      ∃ o, v = .object o ∧ o < t.objects.size ∧ t.fields o = fields := by
    cases hnew
    refine ⟨u.objects.size, rfl, ?_, ?_⟩
    · simp
    · rw [Store.fields_push, if_pos rfl]
  cases h with
  | @document members _ _ _ u hmembers h =>
      rw [importDocument_object hmembers] at h
      exact made u _ _ _ h
  | @literal n parts env values _ _ u hvalues h =>
      rw [eval, run_bind, evalFields_eq, hvalues] at h
      exact made u _ _ _ h

end Stencil.Script
