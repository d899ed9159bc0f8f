import Stencil.Proofs.Runs.Settles
import Stencil.Proofs.Sheets.Basic

/-!
# Sheets — values

An expression that only computes a value is a computation on data (`Expr.onData_value`), and where
the names in it are bound to what they stand for, running it comes to that value
(`Expr.settles_value`).
-/

namespace Stencil.Script

/-- Valuations by values that are no functions of a script. -/
def Valuation.Given (ρ : Valuation) : Prop :=
  ∀ word, (ρ word).Given

theorem Valuation.Given.bind {ρ : Valuation} (h : ρ.Given) (name : String) {v : Value}
    (hv : v.Given) : (ρ.bind name v).Given := by
  intro word
  rw [Valuation.bind]
  split
  · exact hv
  · exact h word

/-! ### Values as data -/

section
variable {ρ : Valuation}

mutual

theorem Expr.onData_value (h : ρ.Given) : ∀ e : Expr, OnData (e.value ρ) Value.Given
  | .number _ | .bool _ | .null => .pure (Value.given_of_not_function rfl)
  | .string t => .pure (Value.given_string t)
  | .name word => .pure (h word)
  | .array items => (onData_valueAll h items).bind fun vs hvs => onData_newArray fun v hm =>
      hvs v (List.mem_toArray.mp hm)
  | .object fields => (onData_valueFields h fields [] nofun).bind fun _ h => onData_newObject h
  | .member object key => (object.onData_value h).bind fun _ _ => onData_getProperty _ key
  | .index object key =>
      (object.onData_value h).bind fun base _ => (key.onData_value h).bind fun k hk =>
        .reading (fun s _ => onData_getProperty base (s.key k)) fun s t g g' => by
          simp only [Store.key, Store.text_withHeap g g' hk]
  | .unary op operand => (operand.onData_value h).bind fun _ hv => onData_applyUnary hv op
  | .binary op left right =>
      (left.onData_value h).bind fun _ hv => (right.onData_value h).bind fun _ hw =>
        onData_operate hv op hw
  | .logical op left right => (left.onData_value h).bind fun v hv => by
      split
      · exact .pure hv
      · exact right.onData_value h
  | .conditional test yes no => (test.onData_value h).bind fun _ _ => by
      split
      · exact yes.onData_value h
      · exact no.onData_value h
  | .function _ | .call _ _ | .update _ _ _ | .assign _ _ _ => .pure Value.given_undefined

theorem onData_valueAll (h : ρ.Given) : ∀ items : List Expr,
    OnData (valueAll ρ items) fun values => ∀ v ∈ values, v.Given
  | [] => .pure nofun
  | e :: rest => (e.onData_value h).bind fun _ hv => (onData_valueAll h rest).bind fun _ hvs =>
      .pure (List.forall_mem_cons.mpr ⟨hv, hvs⟩)

theorem onData_valueFields (h : ρ.Given) : ∀ (fields : List (String × Expr)) (done : Fields),
    (∀ p ∈ done, p.2.Given) → OnData (valueFields ρ fields done) fun all => ∀ p ∈ all, p.2.Given
  | [], _, hd => .pure hd
  | (_, e) :: rest, _, hd => (e.onData_value h).bind fun _ hv =>
      onData_valueFields h rest _ (Fields.given_put hd hv)

end

end

/-! ### Values as runs -/

/-- At a place in a script a name is bound to a value. -/
def Scopes.Stands (σ : Scopes) (env : Env) (name : String) (v : Value) : Prop :=
  ∃ r mutable, σ.find? name env = some (r, ⟨v, mutable⟩)

theorem Scopes.Stands.lookUp {s : Store} {env : Env} {name : String} {v : Value}
    (h : Scopes.Stands s.scopes env name v) : Script.lookUp env name s = .ok v s := by
  obtain ⟨r, mutable, h⟩ := h
  rw [lookUp_run, h]

/-- The names of a valuation at a place in a script. -/
structure Names (ρ : Valuation) (names : List String) (env : Env) (s : Store) : Prop where
  given : s.Given
  stands : ∀ word ∈ names, Scopes.Stands s.scopes env word (ρ word)

section
variable {ρ : Valuation} {names : List String} {env : Env} {s t : Store}

theorem Names.of_subset (h : Names ρ names env s) {names' : List String} (hs : names' ⊆ names) :
    Names ρ names' env s :=
  ⟨h.given, fun word hw => h.stands word (hs hw)⟩

theorem Names.left {names' : List String} (h : Names ρ (names ++ names') env s) :
    Names ρ names env s :=
  h.of_subset (List.subset_append_left _ _)

theorem Names.right {names' : List String} (h : Names ρ (names ++ names') env s) :
    Names ρ names' env s :=
  h.of_subset (List.subset_append_right _ _)

/-- Computations on data leave the names as they are. -/
theorem Names.after (h : Names ρ names env s) {α : Type} {m : Run α} {Q : α → Prop}
    (data : OnData m Q) {a : α} (hm : m s = .ok a t) : Names ρ names env t := by
  have hgiven := data.given s h.given
  have hkeeps := data.keeps h.given
  rw [hm] at hgiven hkeeps
  refine ⟨hgiven, ?_⟩
  rw [← show s.withHeap t = t from hkeeps]
  exact h.stands

end

section
variable {ρ : Valuation} {env : Env}

mutual

/-- **Running an expression that only computes a value** comes to its value. -/
theorem Expr.settles_value (hρ : ρ.Given) : ∀ {e : Expr} {s : Store}, e.Plain → Names ρ (e.uses []) env s →
    Settles (fun n => eval n e env) s (e.value ρ s)
  | .number _, s, _, _ | .string _, s, _, _ | .bool _, s, _, _ | .null, s, _, _ =>
      .succ (fun _ => by rw [eval]; rfl) (.const _ s)
  | .name word, s, _, h => by
      refine .succ (fun _ => by rw [eval]) ?_
      have stands := h.stands word (by simp [Expr.uses])
      have hvalue : Script.lookUp env word s = (Expr.name word).value ρ s := stands.lookUp
      rw [← hvalue]
      exact .const _ s
  | .array items, s, hp, h => by
      refine .succ (fun _ => by rw [eval]) ?_
      exact (settles_valueAll hρ hp h).bind fun vs t ht => .const _ t
  | .object fields, s, hp, h => by
      refine .succ (fun _ => by rw [eval]) ?_
      exact (settles_valueFields hρ hp h).bind fun all t ht => .const _ t
  | .member object key, s, hp, h => by
      refine .succ (fun _ => by rw [eval]) ?_
      exact (Expr.settles_value (e := object) hρ hp h).bind fun base t ht => .const _ t
  | .index object key, s, hp, h => by
      refine .succ (fun _ => by rw [eval]) ?_
      refine (Expr.settles_value hρ hp.1 h.left).bind fun base t ht => ?_
      have h' := h.right.after (Expr.onData_value hρ object) ht
      exact (Expr.settles_value hρ hp.2 h').bind fun k u hu => .const _ u
  | .unary op operand, s, hp, h => by
      rcases typeof_name_or op operand with ⟨word, rfl, rfl⟩ | hn
      · refine .succ (fun _ => by rw [eval]) ?_
        obtain ⟨r, mutable, stands⟩ := h.stands word (by simp [Expr.uses])
        have hvalue : typeOfName env word s = (Expr.unary .typeof (.name word)).value ρ s := by
          rw [typeOfName_run, stands]
          rfl
        rw [← hvalue]
        exact .const _ s
      · refine .succ (m := fun n => eval n operand env >>= applyUnary op) (fun n => ?_) ?_
        · rw [eval]
          exact hn
        · exact (Expr.settles_value (e := operand) hρ hp h).bind fun v t ht => .const _ t
  | .binary op left right, s, hp, h => by
      refine .succ (fun _ => by rw [eval]) ?_
      refine (Expr.settles_value hρ hp.1 h.left).bind fun v t ht => ?_
      have h' := h.right.after (Expr.onData_value hρ left) ht
      exact (Expr.settles_value hρ hp.2 h').bind fun w u hu => .const _ u
  | .logical op left right, s, hp, h => by
      refine .succ (fun _ => by rw [eval]) ?_
      refine (Expr.settles_value hρ hp.1 h.left).bind fun v t ht => ?_
      have h' := h.right.after (Expr.onData_value hρ left) ht
      split
      · exact .const _ t
      · exact Expr.settles_value hρ hp.2 h'
  | .conditional test yes no, s, hp, h => by
      refine .succ (fun _ => by rw [eval]) ?_
      refine (Expr.settles_value hρ hp.1 h.left.left).bind fun v t ht => ?_
      have data := Expr.onData_value hρ test
      split
      · exact Expr.settles_value hρ hp.2.1 (h.left.right.after data ht)
      · exact Expr.settles_value hρ hp.2.2 (h.right.after data ht)
  | .function _, _, hp, _ | .call _ _, _, hp, _ | .update _ _ _, _, hp, _ | .assign _ _ _, _, hp, _ =>
      hp.elim

theorem settles_valueAll (hρ : ρ.Given) : ∀ {items : List Expr} {s : Store}, PlainAll items →
    Names ρ (usesAll [] items) env s → Settles (fun n => evalAll n items env) s (valueAll ρ items s)
  | [], s, _, _ => .succ (fun _ => by rw [evalAll]; rfl) (.const _ s)
  | e :: rest, s, hp, h => by
      refine .succ (fun _ => by rw [evalAll]) ?_
      refine (Expr.settles_value hρ hp.1 h.left).bind fun v t ht => ?_
      have h' := h.right.after (Expr.onData_value hρ e) ht
      exact (settles_valueAll hρ hp.2 h').bind fun vs u hu => .const _ u

theorem settles_valueFields (hρ : ρ.Given) : ∀ {fields : List (String × Expr)} {done : Fields} {s : Store},
    PlainFields fields → Names ρ (usesFields [] fields) env s →
    Settles (fun n => evalFields n fields done env) s (valueFields ρ fields done s)
  | [], _, s, _, _ => .succ (fun _ => by rw [evalFields]; rfl) (.const _ s)
  | (_, e) :: rest, _, s, hp, h => by
      refine .succ (fun _ => by rw [evalFields]) ?_
      refine (Expr.settles_value hρ hp.1 h.left).bind fun v t ht => ?_
      exact settles_valueFields hρ hp.2 (h.right.after (Expr.onData_value hρ e) ht)

end

end

end Stencil.Script
