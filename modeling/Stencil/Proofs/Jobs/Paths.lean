import Stencil.Proofs.Jobs.Scoping

/-!
# Jobs — logs as paths

Each entry of a log finds the scopes that the one before it leaves, so that a log is a path through
the scopes that a run passes.  What holds of one step can be carried along any part of a path, also
along a part that is not the log of a job.

* `Job.leads`: a log leads from the scopes that its job finds to those that it leaves.
* `Leads.grows`: along a path scopes and names are only added.
* `Leads.keeps`: a variable that is not bound anew stays as it is until it is assigned to.
-/

namespace Stencil.Script

/-- **Paths**: every entry finds the scopes that the one before it leaves. -/
def Leads : List Entry → Scopes → Scopes → Prop
  | [], σ, τ => σ = τ
  | e :: l, σ, τ => e.before.scopes = σ ∧ Leads l e.passed.scopes τ

section
variable {l l' : List Entry} {e : Entry} {σ τ υ : Scopes}

theorem leads_append : Leads (l ++ l') σ τ ↔ ∃ υ, Leads l σ υ ∧ Leads l' υ τ := by
  induction l generalizing σ with
  | nil => simp [Leads]
  | cons e l ih => simp [Leads, ih, and_assoc]

theorem Leads.append (h : Leads l σ υ) (h' : Leads l' υ τ) : Leads (l ++ l') σ τ :=
  leads_append.mpr ⟨υ, h, h'⟩

/-- The part of a path before one of its entries. -/
theorem Leads.front (h : Leads (l ++ e :: l') σ τ) : Leads l σ e.before.scopes := by
  obtain ⟨υ, h, rfl, -⟩ := leads_append.mp h
  exact h

/-- The part of a path after one of its entries. -/
theorem Leads.back (h : Leads (l ++ e :: l') σ τ) : Leads l' e.passed.scopes τ := by
  obtain ⟨υ, -, -, h⟩ := leads_append.mp h
  exact h

theorem Leads.unique (h : Leads l σ τ) (h' : Leads l σ υ) : τ = υ := by
  induction l generalizing σ with
  | nil => exact Eq.trans (Eq.symm h) h'
  | cons e l ih => exact ih h.2 h'.2

end

/-! ### Logs -/

section
variable {α β : Type} {n : Nat}

/-- A part of a course, and what follows where it has a result. -/
theorem Leads.bind {m : Run α} {k : α → Run β} {next : α → Store → List Entry} {l : List Entry}
    {s : Store} (h : Leads l s.scopes (storeOf (m s)).scopes)
    (hk : ∀ a t, m s = .ok a t → Leads (next a t) t.scopes (storeOf (k a t)).scopes) :
    Leads (l ++ Script.after m s next) s.scopes (storeOf ((m >>= k) s)).scopes := by
  rw [Script.run_bind]
  cases hm : m s with
  | ok a t =>
      rw [hm] at h
      rw [after_ok hm]
      exact h.append (hk a t hm)
  | error e t =>
      rw [hm] at h
      rw [after_error hm, List.append_nil]
      exact h

theorem scopes_asCall (m : Run α) (s : Store) :
    (storeOf (asCall m s)).scopes = (storeOf (m s.deeper)).scopes := by
  rw [asCall_run]
  cases m s.deeper <;> rfl

theorem Course.leads
    (ih : ∀ j s, Leads (Job.log n j s) s.scopes (storeOf (j.run n s)).scopes) (p : Course α) :
    ∀ s, Leads (p.log (Job.run n) (Job.log n) s) s.scopes (storeOf (p.run (Job.run n) s)).scopes := by
  induction p with
  | ends a => exact fun s => rfl
  | step o next ihp =>
      have one (s : Store) : Leads [.op o s] s.scopes (storeOf (o.run s)).scopes := ⟨rfl, rfl⟩
      exact fun s => (one s).bind fun a t _ => ihp a t
  | part j next ihp => exact fun s => (ih j s).bind fun a t _ => ihp a t
  | inCall stmts env next ihp =>
      intro s
      refine Leads.bind ?_ fun a t _ => ihp a t
      rw [scopes_asCall]
      exact ih (.execAll stmts env) s.deeper

/-- **A log leads from the scopes that its job finds to those that it leaves.** -/
theorem Job.leads : ∀ (n : Nat) (j : Job) (s : Store),
    Leads (Job.log n j s) s.scopes (storeOf (j.run n s)).scopes
  | 0, j, s => by
      rw [Job.run_zero]
      exact ⟨rfl, rfl⟩
  | n + 1, j, s => by
      rw [Job.run_succ]
      exact ⟨rfl, Course.leads (Job.leads n) (.ofJob j) s⟩

end

/-! ### Growth -/

theorem Op.grows (o : Op) (s : Store) : Scopes.Grows s.scopes (storeOf (o.run s)).scopes := by
  cases hr : o.run s with
  | ok a t => exact (Op.effect hr).scopes.grows
  | error e t =>
      obtain ⟨rfl, -⟩ := Op.run_error hr
      exact .refl _

theorem Entry.grows : ∀ e : Entry, Scopes.Grows e.before.scopes e.passed.scopes
  | .op o s => o.grows s
  | .job _ _ _ => .refl _

theorem Leads.grows {l : List Entry} {σ τ : Scopes} (h : Leads l σ τ) : σ.Grows τ := by
  induction l generalizing σ with
  | nil => exact (show σ = τ from h) ▸ .refl σ
  | cons e l ih =>
      obtain ⟨rfl, h⟩ := h
      exact e.grows.trans (ih h)

section
variable {l : List Entry} {e : Entry} {σ τ : Scopes}

theorem Leads.grows_before (h : Leads l σ τ) (he : e ∈ l) : σ.Grows e.before.scopes := by
  obtain ⟨front, back, rfl⟩ := List.append_of_mem he
  exact h.front.grows

theorem Leads.grows_passed (h : Leads l σ τ) (he : e ∈ l) : Scopes.Grows e.passed.scopes τ := by
  obtain ⟨front, back, rfl⟩ := List.append_of_mem he
  exact h.back.grows

end

section
variable {n : Nat} {j : Job} {s t : Store} {a : j.Result}

/-- The log of a job that has a result. -/
theorem Job.leads_ok (h : j.run n s = .ok a t) : Leads (Job.log n j s) s.scopes t.scopes := by
  have path := Job.leads n j s
  rwa [h] at path

theorem Job.grows (h : j.run n s = .ok a t) : Scopes.Grows s.scopes t.scopes :=
  (Job.leads_ok h).grows

/-- What comes after a job begins with the scopes that the job leaves. -/
theorem Leads.past_job {l : List Entry} {σ τ : Scopes} (h : Leads (Job.log n j s ++ l) σ τ)
    (hr : j.run n s = .ok a t) : Leads l t.scopes τ := by
  obtain ⟨υ, hjob, hl⟩ := leads_append.mp h
  obtain rfl : s.scopes = σ := by cases n <;> exact hjob.1
  rwa [hjob.unique (Job.leads_ok hr)] at hl

end

/-! ### Variables -/

/-- Whether an entry assigns to the variable that a name has in a scope. -/
def Entry.Assigns (r : Ref) (name : String) : Entry → Prop
  | .op (.assign env word _) s => word = name ∧ ∃ v, s.find? name env = some (r, v) ∧ v.mutable = true
  | _ => False

/-- Whether an entry binds names in a scope without asking what is bound there. -/
def Entry.Defines (r : Ref) : Entry → Prop
  | .op (.define env _ _ _) _ => ownScope env = r
  | _ => False

section
variable {r : Ref} {name : String} {v : Variable}

/-- A binding of something else leaves a variable as it is. -/
theorem Scopes.get?_scope_put_of_ne {σ : Scopes} {q : Ref} {word : String} {w : Variable}
    (h : q = r → word ≠ name) :
    ((σ.put q word w).scope r).get? name = (σ.scope r).get? name := by
  rw [Scopes.scope_put]
  split
  · rename_i hq
    exact Scope.get?_put_of_ne fun hn => h hq.1 hn.symm
  · rfl

theorem Op.Rescopes.get?_eq {o : Op} {s : Store} {τ : Scopes} (h : o.Rescopes s.scopes τ)
    (hd : ¬ (Entry.op o s).Defines r) (ha : ¬ (Entry.op o s).Assigns r name)
    (hv : (Scopes.scope s.scopes r).get? name = some v) : (τ.scope r).get? name = some v := by
  have bound {q : Ref} {word : String} (hn : (Scopes.scope s.scopes q).get? word = none) :
      q = r → word ≠ name := by
    rintro rfl rfl
    rw [hn] at hv
    cases hv
  cases h with
  | same => exact hv
  | newScope => rwa [Scopes.scope_opened]
  | define env word value m => rwa [Scopes.get?_scope_put_of_ne fun hq => absurd hq hd]
  | declare env word value m hn => rwa [Scopes.get?_scope_put_of_ne (bound hn)]
  | declareVar env word hn => rwa [Scopes.get?_scope_put_of_ne (bound hn)]
  | assign env word value q w hf hm =>
      refine (Scopes.get?_scope_put_of_ne ?_).trans hv
      rintro rfl rfl
      exact ha ⟨rfl, w, by rw [Store.find?_eq]; exact hf, hm⟩

/-- What is assigned to is a variable that can be. -/
theorem Entry.Assigns.bound {e : Entry} (h : e.Assigns r name) :
    ∃ w, (Scopes.scope e.before.scopes r).get? name = some w ∧ w.mutable = true := by
  cases e with
  | job => exact h.elim
  | op o s =>
      cases o with
      | assign env word value =>
          obtain ⟨rfl, w, hfind, hm⟩ := h
          rw [Store.find?_eq] at hfind
          exact ⟨w, Scopes.get?_of_find? hfind, hm⟩
      | _ => exact h.elim

theorem Entry.keeps : ∀ {e : Entry}, ¬ e.Defines r → ¬ e.Assigns r name →
    (Scopes.scope e.before.scopes r).get? name = some v →
      (Scopes.scope e.passed.scopes r).get? name = some v
  | .job _ _ _, _, _, hv => hv
  | .op o s, hd, ha, hv => by
      show (Scopes.scope (storeOf (o.run s)).scopes r).get? name = some v
      cases hr : o.run s with
      | ok a t => exact (Op.effect hr).scopes.get?_eq hd ha hv
      | error e t =>
          obtain ⟨rfl, -⟩ := Op.run_error hr
          exact hv

/-- **A variable stays as it is until it is assigned to**, where it is not bound anew. -/
theorem Leads.keeps {l : List Entry} {σ τ : Scopes} (h : Leads l σ τ)
    (hd : ∀ e ∈ l, ¬ e.Defines r) (ha : ∀ e ∈ l, ¬ e.Assigns r name)
    (hv : (σ.scope r).get? name = some v) : (τ.scope r).get? name = some v := by
  induction l generalizing σ with
  | nil => exact (show σ = τ from h) ▸ hv
  | cons e l ih =>
      obtain ⟨rfl, h⟩ := h
      exact ih h (fun x hx => hd x (List.mem_cons_of_mem _ hx))
        (fun x hx => ha x (List.mem_cons_of_mem _ hx))
        (Entry.keeps (hd e List.mem_cons_self) (ha e List.mem_cons_self) hv)

end

/-- A name is found where it is bound, from all places inside that do not bind it. -/
theorem Scopes.find?_append {σ : Scopes} {name : String} {frame : Frame} {v : Variable} {inner outer : Env}
    (hi : ∀ other ∈ inner, (σ.scope other.scope).get? name = none)
    (hv : (σ.scope frame.scope).get? name = some v) :
    σ.find? name (inner ++ frame :: outer) = some (frame.scope, v) := by
  induction inner with
  | nil => rw [List.nil_append, Scopes.find?_cons, hv]
  | cons other inner ih =>
      rw [List.cons_append, Scopes.find?_cons, hi other List.mem_cons_self]
      exact ih fun x hx => hi x (List.mem_cons_of_mem _ hx)

end Stencil.Script
