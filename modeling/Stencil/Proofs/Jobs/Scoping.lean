import Stencil.Proofs.Jobs.Log
import Stencil.Proofs.Runs.Scopes

/-!
# Jobs — what operations do to scopes

`Op.Rescopes` lists all that an operation can do to the scopes, with what it finds there; no other
operation does anything to them (`Op.rescopes`).  What a binding keeps is read off this list:

* `Op.Rescopes.grows`: no scope is taken out, and no name is.
* `Scopes.KeepsConstants`: constants stay as they are.
* `Scopes.SameNames`: the scopes made before some time have the same names, with the same mutability.
-/

namespace Stencil.Script

/-- **What an operation does to the scopes.** -/
inductive Op.Rescopes (σ : Scopes) : Op → Scopes → Prop where
  | same (o : Op) : Rescopes σ o σ
  | newScope (ofFunction : Bool) (env : Env) : Rescopes σ (.newScope ofFunction env) σ.opened
  | define (env : Env) (name : String) (value : Value) (mutable : Bool) :
    Rescopes σ (.define env name value mutable) (σ.put (ownScope env) name ⟨value, mutable⟩)
  | declare (env : Env) (name : String) (value : Value) (mutable : Bool)
    (h : (σ.scope (ownScope env)).get? name = none) :
    Rescopes σ (.declare env name value mutable) (σ.put (ownScope env) name ⟨value, mutable⟩)
  | declareVar (env : Env) (name : String) (h : (σ.scope (varScope env)).get? name = none) :
    Rescopes σ (.declareVar env name) (σ.put (varScope env) name ⟨.undefined, true⟩)
  | assign (env : Env) (name : String) (value : Value) (r : Ref) (v : Variable)
    (h : σ.find? name env = some (r, v)) (hm : v.mutable = true) :
    Rescopes σ (.assign env name value) (σ.put r name ⟨value, true⟩)

/-- What an operation does to the scopes and the functions. -/
structure Op.Effect (o : Op) (s t : Store) : Prop where
  scopes : o.Rescopes s.scopes t.scopes
  functions : ∀ c ∈ t.functions, c ∈ s.functions ∨ o = .newFunction c

/-- Where a computation on the heap has a result, scopes and functions are as before. -/
theorem OnHeap.effect {α : Type} {m : Run α} (h : OnHeap m) (o : Op) {s t : Store} {a : α}
    (hr : m s = .ok a t) : o.Effect s t := by
  have hs := h.scopes s
  have hf := h.functions s
  rw [hr] at hs hf
  refine ⟨?_, fun c hc => .inl (hf ▸ hc)⟩
  rw [show t.scopes = s.scopes from hs]
  exact .same o

theorem Op.effect_self (o : Op) (s : Store) : o.Effect s s :=
  ⟨.same o, fun _ hc => .inl hc⟩

/-- An operation that changes the scopes alone. -/
theorem Op.Rescopes.effect {o : Op} {s : Store} {scopes : Scopes} (h : o.Rescopes s.scopes scopes) :
    o.Effect s (s.withScopes scopes) :=
  ⟨h, fun _ hc => .inl hc⟩

/-- **Only the operations on names change the scopes**, and only a new function the functions. -/
theorem Op.effect {o : Op} {s t : Store} {a : o.Result} (hr : o.run s = .ok a t) :
    o.Effect s t := by
  by_cases hheap : o.OfHeap
  · exact (Op.onHeap hheap).effect o hr
  cases o with
  | look => cases hr; exact Op.effect_self _ s
  | fail f => cases hr
  | newFunction c =>
      cases hr
      refine ⟨.same _, fun c' hc => ?_⟩
      rcases Array.mem_push.mp hc with hc | rfl
      · exact .inl hc
      · exact .inr rfl
  | newScope b env => cases hr; exact (Op.Rescopes.newScope b env).effect
  | define env name v m => cases hr; exact (Op.Rescopes.define env name v m).effect
  | declare env name v m =>
      simp only [Op.run, declare_run] at hr
      split at hr
      · cases hr
      · rename_i h
        cases hr
        exact (Op.Rescopes.declare env name v m h).effect
  | declareVar env name =>
      simp only [Op.run, declareVar_run] at hr
      split at hr
      · cases hr
        exact Op.effect_self _ s
      · rename_i h
        cases hr
        exact (Op.Rescopes.declareVar env name h).effect
  | lookUp env name =>
      simp only [Op.run, lookUp_run] at hr
      split at hr <;> cases hr
      exact Op.effect_self _ s
  | typeOfName env name =>
      simp only [Op.run, typeOfName_run] at hr
      split at hr <;> cases hr <;> exact Op.effect_self _ s
  | assign env name v =>
      simp only [Op.run, assignName_run] at hr
      split at hr
      · rename_i r w h
        split at hr
        · rename_i hm
          cases hr
          exact (Op.Rescopes.assign env name v r w h hm).effect
        · cases hr
      · cases hr
  | _ => exact absurd trivial hheap

/-! ### Growth -/

theorem Op.Rescopes.grows {o : Op} {σ τ : Scopes} (h : o.Rescopes σ τ) : σ.Grows τ := by
  cases h with
  | same => exact .refl σ
  | newScope => exact Scopes.grows_opened σ
  | define | declare | declareVar | assign => exact Scopes.grows_put _ _ _ _

/-! ### Constants -/

namespace Scopes

/-- **Constants stay**: what is bound as a constant is bound to the same value, as a constant. -/
def KeepsConstants (σ τ : Scopes) : Prop :=
  ∀ r name v, (σ.scope r).get? name = some v → v.mutable = false →
    (τ.scope r).get? name = some v

theorem KeepsConstants.refl (σ : Scopes) : σ.KeepsConstants σ :=
  fun _ _ _ h _ => h

theorem KeepsConstants.trans {σ τ υ : Scopes} (h : σ.KeepsConstants τ) (h' : τ.KeepsConstants υ) :
    σ.KeepsConstants υ :=
  fun r name v hv hm => h' r name v (h r name v hv hm) hm

/-- A binding over no constant keeps the constants. -/
theorem keepsConstants_put {σ : Scopes} {r : Ref} {name : String}
    (h : ∀ v, (σ.scope r).get? name = some v → v.mutable = true) (w : Variable) :
    σ.KeepsConstants (σ.put r name w) := by
  intro q word v hv hm
  rw [scope_put]
  split
  · rename_i hq
    obtain ⟨rfl, -⟩ := hq
    rw [Scope.get?_put_of_ne, hv]
    rintro rfl
    rw [h v hv] at hm
    cases hm
  · exact hv

theorem keepsConstants_opened (σ : Scopes) : σ.KeepsConstants σ.opened :=
  fun r name v hv _ => by rwa [scope_opened]

end Scopes

/-- Whether an operation binds no name over a constant in its own scope without asking. -/
def Op.SparesConstants (σ : Scopes) : Op → Prop
  | .define env name _ _ => ∀ v, (σ.scope (ownScope env)).get? name = some v → v.mutable = true
  | _ => True

theorem Op.Rescopes.keepsConstants {o : Op} {σ τ : Scopes} (h : o.Rescopes σ τ)
    (ho : o.SparesConstants σ) : σ.KeepsConstants τ := by
  have unbound {r : Ref} {name : String} (hn : (σ.scope r).get? name = none) :
      ∀ v, (σ.scope r).get? name = some v → v.mutable = true := by
    intro v hv
    rw [hn] at hv
    cases hv
  cases h with
  | same => exact .refl σ
  | newScope => exact Scopes.keepsConstants_opened σ
  | define => exact Scopes.keepsConstants_put ho _
  | declare _ _ _ _ h => exact Scopes.keepsConstants_put (unbound h) _
  | declareVar _ _ h => exact Scopes.keepsConstants_put (unbound h) _
  | assign env name value r v h hm =>
      refine Scopes.keepsConstants_put (fun w hw => ?_) _
      rw [Scopes.get?_of_find? h] at hw
      cases hw
      exact hm

/-! ### Names in old scopes -/

namespace Scopes

/-- The names bound in a scope, each with whether it can be assigned to. -/
def mutability (σ : Scopes) (r : Ref) (name : String) : Option Bool :=
  ((σ.scope r).get? name).map Variable.mutable

/-- **The same names**: the scopes below a bound have the same names, with the same mutability. -/
def SameNames (bound : Nat) (σ τ : Scopes) : Prop :=
  ∀ r < bound, ∀ name, τ.mutability r name = σ.mutability r name

theorem SameNames.refl (bound : Nat) (σ : Scopes) : SameNames bound σ σ :=
  fun _ _ _ => rfl

theorem SameNames.trans {bound : Nat} {σ τ υ : Scopes} (h : SameNames bound σ τ)
    (h' : SameNames bound τ υ) : SameNames bound σ υ :=
  fun r hr name => (h' r hr name).trans (h r hr name)

theorem sameNames_put {bound : Nat} {σ : Scopes} {r : Ref} {name : String} {v : Variable}
    (h : r < bound → σ.mutability r name = some v.mutable) : SameNames bound σ (σ.put r name v) := by
  intro q hq word
  rw [mutability, scope_put]
  split
  · rename_i hr
    obtain ⟨rfl, -⟩ := hr
    rw [Scope.get?_put]
    split
    · rename_i hw
      rw [hw, h hq]
      rfl
    · rfl
  · rfl

theorem sameNames_opened (bound : Nat) (σ : Scopes) : SameNames bound σ σ.opened := by
  intro r hr name
  rw [mutability, scope_opened]
  rfl

end Scopes

/-- Whether an operation binds new names only in scopes from a bound on. -/
def Op.BindsFrom (bound : Nat) (σ : Scopes) : Op → Prop
  | .define env _ _ _ => bound ≤ ownScope env
  | .declare env _ _ _ => bound ≤ ownScope env
  | .declareVar env name =>
    bound ≤ varScope env ∨ ((σ.scope (varScope env)).get? name).isSome
  | _ => True

theorem Op.Rescopes.sameNames {o : Op} {bound : Nat} {σ τ : Scopes} (h : o.Rescopes σ τ)
    (ho : o.BindsFrom bound σ) : Scopes.SameNames bound σ τ := by
  cases h with
  | same => exact .refl bound σ
  | newScope => exact Scopes.sameNames_opened bound σ
  | define => exact Scopes.sameNames_put fun hr => absurd hr (Nat.not_lt.mpr ho)
  | declare => exact Scopes.sameNames_put fun hr => absurd hr (Nat.not_lt.mpr ho)
  | declareVar env name h =>
      refine Scopes.sameNames_put fun hr => ?_
      obtain ho | ho := ho
      · exact absurd hr (Nat.not_lt.mpr ho)
      · rw [h] at ho
        cases ho
  | assign env name value r v h hm =>
      refine Scopes.sameNames_put fun _ => ?_
      rw [Scopes.mutability, Scopes.get?_of_find? h, Option.map_some, hm]

end Stencil.Script
