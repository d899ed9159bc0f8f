import Stencil.Proofs.Runs.Heap

/-!
# Runs — scopes

The scopes of a store on their own.  A run opens scopes and binds names in them, and never takes
anything back: `Grows`.

* `Scope.get?_put`: a binding changes what its name is bound to, and no other name.
* `findIn_grows`: a name that is found is found ever after, and also from further inside.
* `Run` equations: what `define`, `declareVar`, `lookUp` and the like do, in terms of the scopes.
-/

namespace Stencil.Script

/-- The scopes of a store. -/
abbrev Scopes := Array Scope

/-! ### One scope -/

namespace Scope

theorem get?_put (scope : Scope) (name : String) (v : Variable) (word : String) :
    (scope.put name v).get? word = if word = name then some v else scope.get? word := by
  induction scope with
  | nil =>
      by_cases h : word = name
      · simp [put, get?, h]
      · have h' : (word == name) = false := by simp [h]
        simp [put, get?, List.lookup_cons, h, h']
  | cons head rest ih =>
      obtain ⟨n, w⟩ := head
      simp only [get?] at ih ⊢
      by_cases hn : n = name
      · subst hn
        by_cases hw : word = n
        · simp [put, hw]
        · have hw' : (word == n) = false := by simp [hw]
          simp [put, List.lookup_cons, hw, hw']
      · by_cases hw : word = n
        · subst hw
          simp [put, hn]
        · have hw' : (word == n) = false := by simp [hw]
          simp [put, hn, List.lookup_cons, hw', ih]

@[simp] theorem get?_put_self (scope : Scope) (name : String) (v : Variable) :
    (scope.put name v).get? name = some v := by
  simp [get?_put]

theorem get?_put_of_ne {scope : Scope} {name word : String} {v : Variable} (h : word ≠ name) :
    (scope.put name v).get? word = scope.get? word := by
  simp [get?_put, h]

end Scope

/-! ### All scopes -/

namespace Scopes

/-- The variables of a scope. -/
def scope (σ : Scopes) (r : Ref) : Scope :=
  σ.getD r []

/-- Binds a name in a scope. -/
def put (σ : Scopes) (r : Ref) (name : String) (v : Variable) : Scopes :=
  σ.modify r (·.put name v)

/-- The innermost variable of a name, and the scope it is in. -/
def find? (σ : Scopes) (name : String) : Env → Option (Ref × Variable)
  | [] => none
  | frame :: outer =>
    match (σ.scope frame.scope).get? name with
    | some v => some (frame.scope, v)
    | none => σ.find? name outer

@[simp] theorem size_put (σ : Scopes) (r : Ref) (name : String) (v : Variable) :
    (σ.put r name v).size = σ.size := by
  simp [put]

theorem scope_of_lt {σ : Scopes} {r : Ref} (h : r < σ.size) : σ.scope r = σ[r] := by
  simp [Scopes.scope, h]

theorem scope_of_le {σ : Scopes} {r : Ref} (h : σ.size ≤ r) : σ.scope r = [] := by
  simp [Scopes.scope, h]

theorem scope_put (σ : Scopes) (r q : Ref) (name : String) (v : Variable) :
    (σ.put r name v).scope q =
      if r = q ∧ q < σ.size then (σ.scope q).put name v else σ.scope q := by
  by_cases hq : q < σ.size
  · rw [scope_of_lt (by simpa using hq), scope_of_lt hq]
    by_cases hr : r = q <;> simp [put, Array.getElem_modify, hr, hq]
  · rw [scope_of_le (by simpa using hq), scope_of_le (by simpa using hq)]
    simp [hq]

/-- The scopes with an empty one more. -/
def opened (σ : Scopes) : Scopes :=
  σ.push []

@[simp] theorem size_opened (σ : Scopes) : σ.opened.size = σ.size + 1 := by
  simp [opened]

@[simp] theorem scope_opened (σ : Scopes) (q : Ref) : σ.opened.scope q = σ.scope q := by
  simp only [Scopes.scope, opened, Array.getD_eq_getD_getElem?, Array.getElem?_push]
  split
  · rename_i h
    simp [h]
  · rfl

theorem get?_scope_put (σ : Scopes) {r : Ref} (h : r < σ.size) (q : Ref) (name word : String)
    (v : Variable) :
    ((σ.put r name v).scope q).get? word =
      if r = q ∧ word = name then some v else (σ.scope q).get? word := by
  rw [scope_put]
  by_cases hr : r = q
  · subst hr
    simp [h, Scope.get?_put]
  · simp [hr]

theorem find?_cons (σ : Scopes) (name : String) (frame : Frame) (outer : Env) :
    σ.find? name (frame :: outer) =
      match (σ.scope frame.scope).get? name with
      | some v => some (frame.scope, v)
      | none => σ.find? name outer := rfl

/-- Two lists of scopes in which a name is bound to the same find it at the same place. -/
theorem find?_congr {σ τ : Scopes} {name : String}
    (h : ∀ r, (σ.scope r).get? name = (τ.scope r).get? name) (env : Env) :
    σ.find? name env = τ.find? name env := by
  induction env with
  | nil => rfl
  | cons frame outer ih => simp only [find?_cons, h, ih]

theorem isSome_find?_cons {σ : Scopes} {name : String} {frame : Frame} {outer : Env} :
    (σ.find? name (frame :: outer)).isSome ↔
      ((σ.scope frame.scope).get? name).isSome ∨ (σ.find? name outer).isSome := by
  rw [find?_cons]
  cases (σ.scope frame.scope).get? name <;> simp

theorem find?_mem {σ : Scopes} {name : String} {r : Ref} {v : Variable} :
    ∀ {env : Env}, σ.find? name env = some (r, v) → ∃ frame ∈ env, frame.scope = r
  | frame :: outer, h => by
      rw [find?_cons] at h
      split at h
      · cases h
        exact ⟨frame, List.mem_cons_self, rfl⟩
      · obtain ⟨other, hm, hr⟩ := find?_mem h
        exact ⟨other, List.mem_cons_of_mem _ hm, hr⟩

/-- What is found is bound where it is found. -/
theorem get?_of_find? {σ : Scopes} {name : String} {r : Ref} {v : Variable} :
    ∀ {env : Env}, σ.find? name env = some (r, v) → (σ.scope r).get? name = some v
  | frame :: outer, h => by
      rw [find?_cons] at h
      split at h
      · rename_i w hw
        cases h
        exact hw
      · exact get?_of_find? h

/-- **Growth**: no scope is taken out, and no name is. -/
structure Grows (σ τ : Scopes) : Prop where
  size : σ.size ≤ τ.size
  bound : ∀ r name, ((σ.scope r).get? name).isSome → ((τ.scope r).get? name).isSome

theorem Grows.refl (σ : Scopes) : Grows σ σ := ⟨Nat.le_refl _, fun _ _ h => h⟩

theorem Grows.trans {σ τ υ : Scopes} (h : Grows σ τ) (h' : Grows τ υ) : Grows σ υ :=
  ⟨Nat.le_trans h.size h'.size, fun r name b => h'.bound r name (h.bound r name b)⟩

theorem grows_put (σ : Scopes) (r : Ref) (name : String) (v : Variable) :
    Grows σ (σ.put r name v) where
  size := by simp
  bound q word h := by
    rw [scope_put]
    split
    · rw [Scope.get?_put]
      split
      · rfl
      · exact h
    · exact h

theorem grows_opened (σ : Scopes) : Grows σ σ.opened where
  size := by simp
  bound r name h := by rwa [scope_opened]

theorem find?_grows {σ τ : Scopes} (h : Grows σ τ) {name : String} {env : Env}
    (hf : (σ.find? name env).isSome) : (τ.find? name env).isSome := by
  induction env with
  | nil => exact hf
  | cons frame outer ih =>
      rw [isSome_find?_cons] at hf ⊢
      exact hf.imp (h.bound _ _) ih

/-! ### Places in a script -/

/-- Whether there is a scope to bind names in, and all scopes exist. -/
structure Supports (σ : Scopes) (env : Env) : Prop where
  nonempty : env ≠ []
  lt : ∀ frame ∈ env, frame.scope < σ.size

theorem Supports.mono {σ τ : Scopes} {env : Env} (h : σ.Supports env) (g : Grows σ τ) :
    τ.Supports env :=
  ⟨h.nonempty, fun frame hm => Nat.lt_of_lt_of_le (h.lt frame hm) g.size⟩

theorem Supports.opened {σ : Scopes} {env : Env} (h : σ.Supports env) (ofFunction : Bool) :
    σ.opened.Supports (⟨σ.size, ofFunction⟩ :: env) where
  nonempty := by simp
  lt frame hm := by
    rcases List.mem_cons.mp hm with rfl | hm
    · simp
    · exact ((h.mono (grows_opened σ)).lt frame hm)

/-- The scope that a name can be bound in: the innermost one, or the one of the function. -/
inductive Binds : Env → Ref → Prop where
  | own (env : Env) : Binds env (ownScope env)
  | var (env : Env) : Binds env (varScope env)

theorem ownScope_mem : ∀ {env : Env}, env ≠ [] → ∃ frame ∈ env, frame.scope = ownScope env
  | frame :: _, _ => ⟨frame, List.mem_cons_self, rfl⟩

theorem varScope_mem : ∀ {env : Env}, env ≠ [] → ∃ frame ∈ env, frame.scope = varScope env
  | [frame], _ => ⟨frame, List.mem_cons_self, rfl⟩
  | frame :: next :: outer, _ => by
      rw [varScope]
      · split
        · exact ⟨frame, List.mem_cons_self, rfl⟩
        · obtain ⟨other, hm, hr⟩ := @varScope_mem (next :: outer) (by simp)
          exact ⟨other, List.mem_cons_of_mem _ hm, hr⟩
      · simp

theorem Binds.mem {env : Env} {r : Ref} (h : Binds env r) (hne : env ≠ []) :
    ∃ frame ∈ env, frame.scope = r := by
  cases h with
  | own => exact ownScope_mem hne
  | var => exact varScope_mem hne

theorem Supports.binds_lt {σ : Scopes} {env : Env} (h : σ.Supports env) {r : Ref} (hb : Binds env r) :
    r < σ.size := by
  obtain ⟨frame, hm, rfl⟩ := hb.mem h.nonempty
  exact h.lt frame hm

theorem find?_of_mem {σ : Scopes} {name : String} {frame : Frame}
    (hb : ((σ.scope frame.scope).get? name).isSome) :
    ∀ {env : Env}, frame ∈ env → (σ.find? name env).isSome
  | other :: outer, hm => by
      rw [isSome_find?_cons]
      rcases List.mem_cons.mp hm with rfl | hm
      · exact .inl hb
      · exact .inr (find?_of_mem hb hm)

/-- A name that is bound where names are bound is found. -/
theorem Supports.find?_of_bound {σ : Scopes} {env : Env} (h : σ.Supports env) {r : Ref}
    (hb : Binds env r) {name : String} (hn : ((σ.scope r).get? name).isSome) :
    (σ.find? name env).isSome := by
  obtain ⟨frame, hm, rfl⟩ := hb.mem h.nonempty
  exact find?_of_mem hn hm

theorem Supports.find?_put {σ : Scopes} {env : Env} (h : σ.Supports env) {r : Ref}
    (hb : Binds env r) (name : String) (v : Variable) :
    ((σ.put r name v).find? name env).isSome := by
  refine (h.mono (grows_put σ r name v)).find?_of_bound hb ?_
  simp [get?_scope_put σ (h.binds_lt hb)]

end Scopes

/-! ### Runs on scopes -/

theorem Store.scope_eq (s : Store) (r : Ref) : s.scope r = Scopes.scope s.scopes r := rfl

theorem Store.find?_eq (s : Store) (name : String) (env : Env) :
    s.find? name env = Scopes.find? s.scopes name env := by
  induction env with
  | nil => rfl
  | cons frame outer ih =>
      cases hv : (Scopes.scope s.scopes frame.scope).get? name with
      | none => simp only [Store.find?, Scopes.find?_cons, Store.scope_eq, hv, ih]
      | some v => simp only [Store.find?, Scopes.find?_cons, Store.scope_eq, hv]

theorem newScope_run (ofFunction : Bool) (env : Env) (s : Store) :
    newScope ofFunction env s =
      .ok (⟨s.scopes.size, ofFunction⟩ :: env) (s.withScopes (Scopes.opened s.scopes)) := rfl

theorem define_run (env : Env) (name : String) (value : Value) (mutable : Bool) (s : Store) :
    define env name value mutable s =
      .ok () (s.withScopes (Scopes.put s.scopes (ownScope env) name ⟨value, mutable⟩)) := rfl

theorem declare_run (env : Env) (name : String) (value : Value) (mutable : Bool) (s : Store) :
    declare env name value mutable s =
      match (Scopes.scope s.scopes (ownScope env)).get? name with
      | some _ => .error (.fault (.alreadyDeclared name)) s
      | none =>
        .ok () (s.withScopes (Scopes.put s.scopes (ownScope env) name ⟨value, mutable⟩)) := by
  rw [declare, run_get_bind, Store.scope_eq]
  cases (Scopes.scope s.scopes (ownScope env)).get? name <;> rfl

theorem declareVar_run (env : Env) (name : String) (s : Store) :
    declareVar env name s =
      match (Scopes.scope s.scopes (varScope env)).get? name with
      | some _ => .ok () s
      | none =>
        .ok () (s.withScopes (Scopes.put s.scopes (varScope env) name ⟨.undefined, true⟩)) := by
  rw [declareVar, run_get_bind, Store.scope_eq]
  cases (Scopes.scope s.scopes (varScope env)).get? name <;> rfl

theorem lookUp_run (env : Env) (name : String) (s : Store) :
    lookUp env name s =
      match Scopes.find? s.scopes name env with
      | some (_, v) => .ok v.value s
      | none => .error (.fault (.notDefined name)) s := by
  rw [lookUp, run_get_bind, Store.find?_eq]
  rcases Scopes.find? s.scopes name env with _ | ⟨r, v⟩ <;> rfl

theorem typeOfName_run (env : Env) (name : String) (s : Store) :
    typeOfName env name s =
      match Scopes.find? s.scopes name env with
      | some (_, v) => .ok (.string v.value.typeName) s
      | none => .ok (.string "undefined") s := by
  rw [typeOfName, run_get_bind, Store.find?_eq]
  rcases Scopes.find? s.scopes name env with _ | ⟨r, v⟩ <;> rfl

theorem assignName_run (env : Env) (name : String) (value : Value) (s : Store) :
    assignName env name value s =
      match Scopes.find? s.scopes name env with
      | some (r, v) =>
        if v.mutable then .ok () (s.withScopes (Scopes.put s.scopes r name ⟨value, true⟩))
        else .error (.fault (.constantAssignment name)) s
      | none => .error (.fault (.notDefined name)) s := by
  rw [assignName, run_get_bind, Store.find?_eq]
  rcases Scopes.find? s.scopes name env with _ | ⟨r, v⟩
  · rfl
  · dsimp only
    split <;> rfl

end Stencil.Script
