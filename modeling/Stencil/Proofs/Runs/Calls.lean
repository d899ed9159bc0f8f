import Stencil.Proofs.Runs.Helper

/-!
# Runs — the scope of a call

A call from outside has one scope of its own inside the outermost one.  What is bound before the body
runs is bound in it.

* `callScopes`: the scopes of such a call, by the variables of the call.
* `Scope.declared`: the variables after names are declared for the whole function.
-/

namespace Stencil.Script

/-! ### The scope of a call -/

/-- The scopes of a call from outside. -/
def callScopes (c : Scope) : Scopes :=
  #[globalScope, c]

theorem scope_callScopes (c : Scope) : (callScopes c).scope Scopes.callScope = c := rfl

theorem put_callScopes (c : Scope) (name : String) (v : Variable) :
    (callScopes c).put Scopes.callScope name v = callScopes (c.put name v) := rfl

section
variable {c : Scope} {s t : Store} {name word : String} {v : Value}

theorem find?_callScopes {w : Variable} (h : c.get? name = some w) :
    (callScopes c).find? name callEnv = some (Scopes.callScope, w) := by
  rw [callEnv, Scopes.find?_cons, scope_callScopes, h]

theorem lookUp_call (hs : s.scopes = callScopes c) (h : c.get? name = some ⟨v, true⟩) :
    lookUp callEnv name s = .ok v s := by
  rw [lookUp_run, hs, find?_callScopes h]

theorem assign_call (hs : s.scopes = callScopes c) {w : Value} (h : c.get? name = some ⟨w, true⟩)
    (v : Value) :
    assignName callEnv name v s = .ok () (s.withScopes (callScopes (c.put name ⟨v, true⟩))) := by
  rw [assignName_run, hs, find?_callScopes h]
  rfl

theorem declareVar_call (hs : s.scopes = callScopes c) :
    declareVar callEnv name s = match c.get? name with
      | some _ => .ok () s
      | none => .ok () (s.withScopes (callScopes (c.put name ⟨.undefined, true⟩))) := by
  rw [declareVar_run, hs]
  rfl

/-- The declaration of a name that is bound already. -/
theorem bindDeclared_call (hs : s.scopes = callScopes c) {w : Value}
    (h : c.get? name = some ⟨w, true⟩) (v : Value) : bindDeclared .var name (some v) callEnv s =
      .ok () (s.withScopes (callScopes (c.put name ⟨v, true⟩))) := by
  rw [bindDeclared, run_bind, declareVar_call hs, h]
  exact assign_call hs h v

/-! ### Declared names -/

/-- The variables of a call after names are declared for the whole function. -/
def Scope.declared (c : Scope) : List String → Scope
  | [] => c
  | name :: names => match c.get? name with
    | some _ => c.declared names
    | none => Scope.declared (c.put name ⟨.undefined, true⟩) names

theorem declareVars_call : ∀ {names : List String} {c : Scope} {s : Store},
    s.scopes = callScopes c →
      declareVars callEnv names s = .ok () (s.withScopes (callScopes (c.declared names)))
  | [], c, s, hs => by
      rw [Scope.declared, ← hs]
      rfl
  | name :: names, c, s, hs => by
      rw [declareVars, run_bind, declareVar_call hs, Scope.declared]
      cases c.get? name with
      | some w => exact declareVars_call hs
      | none => exact declareVars_call rfl

theorem Scope.get?_declared : ∀ (names : List String) (c : Scope) (word : String),
    (c.declared names).get? word =
      (c.get? word).or (if word ∈ names then some ⟨.undefined, true⟩ else none)
  | [], c, word => by simp [Scope.declared]
  | name :: names, c, word => by
      rw [Scope.declared]
      cases h : c.get? name with
      | some w =>
          simp only [Scope.get?_declared names c word, List.mem_cons]
          by_cases hw : word = name
          · rw [hw, h]
            rfl
          · simp only [hw, false_or]
      | none =>
          simp only [Scope.get?_declared names _ word, List.mem_cons, Scope.get?_put]
          by_cases hw : word = name
          · rw [hw, h]
            simp
          · simp only [hw, if_false, false_or]

end

end Stencil.Script
