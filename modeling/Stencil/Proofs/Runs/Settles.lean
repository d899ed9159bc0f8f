import Stencil.Proofs.Runs.Data
import Stencil.Proofs.Runs.Scopes

/-!
# Runs — runs that end

A run is given a number of steps.  One that settles ends in one way for every number that is large
enough.

* `Settles`: the end of a run, and how the ends of sequences come from those of their parts.
* `Follows`: the end of a run beside a computation on data, which says what becomes of the heap.
  The run binds names besides.
-/

namespace Stencil.Script

section
variable {α β γ δ : Type} {s : Store}

/-- **Given steps enough, `m` ends from `s` as `r`.** -/
def Settles (m : Nat → Run α) (s : Store) (r : Outcome α) : Prop :=
  ∃ enough, ∀ n, enough ≤ n → m n s = r

namespace Settles

theorem const (m : Run α) (s : Store) : Settles (fun _ => m) s (m s) :=
  ⟨0, fun _ _ => rfl⟩

theorem of_run {m : Run α} {r : Outcome α} (h : m s = r) : Settles (fun _ => m) s r :=
  ⟨0, fun _ _ => h⟩

theorem of_eq {m : Nat → Run α} {r : Outcome α} (h : ∀ n, m (n + 1) s = r) : Settles m s r :=
  ⟨1, fun n hn => by rw [← Nat.sub_add_cancel hn, h]⟩

/-- One more step, for a run that takes a step by itself. -/
theorem succ {m m' : Nat → Run α} {r : Outcome α} (hm : ∀ n, m' (n + 1) = m n)
    (h : Settles m s r) : Settles m' s r := by
  obtain ⟨enough, h⟩ := h
  refine ⟨enough + 1, fun n hn => ?_⟩
  obtain ⟨n, rfl⟩ : ∃ k, n = k + 1 := ⟨n - 1, by omega⟩
  rw [hm]
  exact h n (by omega)

theorem bind_ok {m : Nat → Run α} {f : Nat → α → Run β} {a : α} {t : Store} {r : Outcome β}
    (hm : Settles m s (.ok a t)) (hf : Settles (fun n => f n a) t r) :
    Settles (fun n => m n >>= f n) s r := by
  obtain ⟨enough, hm⟩ := hm
  obtain ⟨enough', hf⟩ := hf
  refine ⟨max enough enough', fun n hn => ?_⟩
  show (m n >>= f n) s = r
  rw [run_bind, hm n (by omega)]
  exact hf n (by omega)

theorem bind_error {m : Nat → Run α} {f : Nat → α → Run β} {e : Stop} {t : Store}
    (hm : Settles m s (.error e t)) : Settles (fun n => m n >>= f n) s (.error e t) := by
  obtain ⟨enough, hm⟩ := hm
  refine ⟨enough, fun n hn => ?_⟩
  show (m n >>= f n) s = .error e t
  rw [run_bind, hm n hn]

/-- **Sequences**, beside a computation that is made in the same way. -/
theorem bind {m : Nat → Run α} {m' : Run α} {f : Nat → α → Run β} {f' : α → Run β}
    (hm : Settles m s (m' s))
    (hf : ∀ a t, m' s = .ok a t → Settles (fun n => f n a) t (f' a t)) :
    Settles (fun n => m n >>= f n) s ((m' >>= f') s) := by
  rw [run_bind]
  cases h : m' s with
  | ok a t => exact (h ▸ hm).bind_ok (hf a t h)
  | error e t => exact (h ▸ hm).bind_error

end Settles

/-! ### Expressions and statements -/

section
variable {env : Env} {t : Store}

theorem settles_name {word : String} {v : Value} (h : lookUp env word s = .ok v s) :
    Settles (fun n => eval n (.name word) env) s (.ok v s) :=
  .succ (fun _ => by rw [eval]) (.of_run h)

theorem settles_string (text : String) :
    Settles (fun n => eval n (.string text) env) s (.ok (.string text) s) :=
  .succ (m := fun _ => pure (.string text)) (fun _ => by rw [eval]) (.const _ s)

theorem settles_place (word : String) :
    Settles (fun n => evalPlace n (.name word) env) s (.ok (.name word) s) :=
  .succ (m := fun _ => pure (.name word)) (fun _ => by rw [evalPlace]) (.const _ s)

/-- An assignment to a name. -/
theorem settles_assign {word : String} {e : Expr} {v : Value} {u : Store}
    (he : Settles (fun n => eval n e env) s (.ok v t)) (ha : assignName env word v t = .ok () u) :
    Settles (fun n => eval n (.assign none (.name word) e) env) s (.ok v u) := by
  refine .succ (fun _ => by rw [eval]) ((settles_place word).bind_ok (he.bind_ok ?_))
  have written : ((Place.name word).write env v >>= fun _ => pure v) t = .ok v u := by
    rw [Place.write, run_bind, ha]
    rfl
  exact .of_run written

section
variable {kind : DeclKind} {rest : List (String × Option Expr)} {u : Store} {r : Outcome Unit}

theorem settles_noBinding : Settles (fun n => execBindings n kind [] env) s (.ok () s) :=
  .succ (m := fun _ => pure ()) (fun _ => by rw [execBindings]) (.const _ s)

theorem settles_binding {name : String} {e : Expr} {v : Value}
    (he : Settles (fun n => eval n e env) s (.ok v t))
    (hb : bindDeclared kind name (some v) env t = .ok () u)
    (hrest : Settles (fun n => execBindings n kind rest env) u r) :
    Settles (fun n => execBindings n kind ((name, some e) :: rest) env) s r :=
  .succ (fun _ => by rw [execBindings]) (he.bind_ok ((Settles.of_run hb).bind_ok hrest))

theorem settles_bindingNone {name : String} (hb : bindDeclared kind name none env s = .ok () u)
    (hrest : Settles (fun n => execBindings n kind rest env) u r) :
    Settles (fun n => execBindings n kind ((name, none) :: rest) env) s r :=
  .succ (fun _ => by rw [execBindings]) ((Settles.of_run hb).bind_ok hrest)

theorem settles_declare {bindings : List (String × Option Expr)}
    (h : Settles (fun n => execBindings n kind bindings env) s (.ok () t)) :
    Settles (fun n => exec n (.declare kind bindings) env) s (.ok .normal t) :=
  .succ (fun _ => by rw [exec]) (h.bind_ok (.const (pure Completion.normal) t))

end

/-- One statement, and the others after it. -/
theorem settles_cons {first : Stmt} {rest : List Stmt} {r : Outcome Completion}
    (h : Settles (fun n => exec n first env) s (.ok .normal t))
    (h' : Settles (fun n => execAll n rest env) t r) :
    Settles (fun n => execAll n (first :: rest) env) s r :=
  .succ (fun _ => by rw [execAll]) (h.bind_ok h')

end

/-! ### Beside computations on data -/

theorem Store.Given.withScopes (g : s.Given) (σ : Scopes) : (s.withScopes σ).Given :=
  ⟨g.items, g.fields, g.helper, g.natives⟩

/-- **A run beside a computation on data**: where the computation ends as `r`, the run ends with the
same heap, but other scopes.  Where there is a result, `Q` holds of it, of the result of the run and
of the scopes. -/
def Follows (m : Nat → Run β) (s : Store) (r : Outcome α) (Q : α → β → Scopes → Prop) : Prop :=
  match r with
  | .ok a t => ∃ b σ, Q a b σ ∧ Settles m s (.ok b (t.withScopes σ))
  | .error e t => ∃ σ, Settles m s (.error e (t.withScopes σ))

namespace Follows

variable {m : Nat → Run β} {Q : α → β → Scopes → Prop}

theorem ok {a : α} {b : β} {σ : Scopes} {t : Store} (q : Q a b σ)
    (h : Settles m s (.ok b (t.withScopes σ))) : Follows m s (.ok a t) Q :=
  ⟨b, σ, q, h⟩

theorem error {e : Stop} {σ : Scopes} {t : Store} (h : Settles m s (.error e (t.withScopes σ))) :
    Follows m s (.error e t) Q :=
  ⟨σ, h⟩

theorem succ {m' : Nat → Run β} {r : Outcome α} (hm : ∀ n, m' (n + 1) = m n)
    (h : Follows m s r Q) : Follows m' s r Q := by
  cases r with
  | ok a t =>
      obtain ⟨b, σ, q, h⟩ := h
      exact .ok q (h.succ hm)
  | error e t =>
      obtain ⟨σ, h⟩ := h
      exact .error (h.succ hm)

theorem imp {r : Outcome α} {Q' : α → β → Scopes → Prop} (h : Follows m s r Q)
    (hi : ∀ a b σ, Q a b σ → Q' a b σ) : Follows m s r Q' := by
  cases r with
  | ok a t =>
      obtain ⟨b, σ, q, h⟩ := h
      exact .ok (hi a b σ q) h
  | error e t => exact h

/-- After a run with a result. -/
theorem after {k : Nat → β → Run δ} {b : β} {t : Store} {r : Outcome γ}
    {Q : γ → δ → Scopes → Prop} (hm : Settles m s (.ok b t))
    (hk : Follows (fun n => k n b) t r Q) : Follows (fun n => m n >>= k n) s r Q := by
  cases r with
  | ok c u =>
      obtain ⟨d, σ, q, hk⟩ := hk
      exact .ok q (hm.bind_ok hk)
  | error e u =>
      obtain ⟨σ, hk⟩ := hk
      exact .error (hm.bind_ok hk)

/-- Before a run that binds names only. -/
theorem before {k : Nat → β → Run δ} {r : Outcome α} {Q' : α → δ → Scopes → Prop}
    (hm : Follows m s r Q) (hk : ∀ a b (u : Store), Q a b u.scopes → ∃ c σ, Q' a c σ ∧
      Settles (fun n => k n b) u (.ok c (u.withScopes σ))) :
    Follows (fun n => m n >>= k n) s r Q' := by
  cases r with
  | ok a t =>
      obtain ⟨b, σ, q, hm⟩ := hm
      obtain ⟨c, σ', q', hk⟩ := hk a b (t.withScopes σ) q
      exact .ok q' (hm.bind_ok hk)
  | error e t =>
      obtain ⟨σ, hm⟩ := hm
      exact .error hm.bind_error

/-- The computation need not see the scopes of the run. -/
theorem of_scopes {σ : Scopes} {t : Store} {r : Outcome α} (hr : t.withHeap (storeOf r) = storeOf r)
    (h : Follows m s (mapStore (t.withScopes σ).withHeap r) Q) : Follows m s r Q := by
  have scopes : ∀ u σ', t.withHeap u = u →
      ((t.withScopes σ).withHeap u).withScopes σ' = u.withScopes σ' := fun u σ' hu => by
    rw [← hu]
    rfl
  cases r with
  | ok a u =>
      obtain ⟨b, σ', q, h⟩ := h
      rw [scopes u σ' hr] at h
      exact .ok q h
  | error e u =>
      obtain ⟨σ', h⟩ := h
      rw [scopes u σ' hr] at h
      exact .error h

/-- After a run with a result and with scopes of its own. -/
theorem resume {k : Nat → β → Run δ} {b : β} {σ : Scopes} {t : Store} {k' : Run γ} {R : γ → Prop}
    {Q : γ → δ → Scopes → Prop} (hm : Settles m s (.ok b (t.withScopes σ))) (g : t.Given)
    (data : OnData k' R)
    (hk : Follows (fun n => k n b) (t.withScopes σ) (k' (t.withScopes σ)) Q) :
    Follows (fun n => m n >>= k n) s (k' t) Q := by
  have hblind := data.blind t (t.withScopes σ) g (g.withScopes σ)
  refine after hm (of_scopes (σ := σ) (data.keeps g) ?_)
  rw [← hblind]
  exact hk

/-- **Sequences.**  The run goes on from what it has bound. -/
theorem bind {k : Nat → β → Run δ} {m' : Run α} {k' : α → Run γ} {P : α → Prop} {R : γ → Prop}
    {Q' : γ → δ → Scopes → Prop} (g : s.Given) (data : OnData m' P) (hm : Follows m s (m' s) Q)
    (data' : ∀ a, P a → OnData (k' a) R)
    (hk : ∀ a b (t : Store) σ, (t.withScopes σ).Given → P a → Q a b σ →
      Follows (fun n => k n b) (t.withScopes σ) (k' a (t.withScopes σ)) Q') :
    Follows (fun n => m n >>= k n) s ((m' >>= k') s) Q' := by
  have hgiven := data.given s g
  rw [run_bind]
  cases h : m' s with
  | error e t =>
      rw [h] at hm
      obtain ⟨σ, hm⟩ := hm
      exact .error hm.bind_error
  | ok a t =>
      rw [h] at hm hgiven
      obtain ⟨b, σ, q, hm⟩ := hm
      have p := data.result s a t g h
      exact resume hm hgiven (data' a p) (hk a b t σ (hgiven.withScopes σ) p q)

end Follows

end

end Stencil.Script
