import Stencil.Proofs.Alike.Courses
import Stencil.Proofs.Runs.Calls

/-!
# Alike — declared functions

What the declarations that stand directly in a body do in the scope of a call from outside, and why it
makes no difference to do it again.

* `declareAll_run`: declaring functions binds each name to a function of the last definition with it.
* `Store.Declared.alike`: stores stay alike when the same functions are declared on both sides, as
  often as one likes.
* `Store.Declared.redeclared`: they stay alike too when a function is declared again on one side, as
  long as its name is bound to a function of its definition.
-/

namespace Stencil.Script
open Scopes (callScope)

/-! ### Declarations of a body -/

/-- The name that the declaration of a function binds. -/
def Definition.declaredName (f : Definition) : String :=
  f.name.getD ""

/-- The function that a statement declares. -/
def Stmt.declared? : Stmt → Option Definition
  | .function f => some f
  | _ => none

/-- The functions that are declared directly in a body, in order. -/
def declaredFunctions (body : List Stmt) : List Definition :=
  body.filterMap Stmt.declared?

/-- Declares functions one after the other. -/
def declareAll (env : Env) (fs : List Definition) : Run Unit :=
  fs.forM (declareFunction · env)

theorem declareFunctions_eq (env : Env) (body : List Stmt) :
    declareFunctions env body = declareAll env (declaredFunctions body) := by
  induction body with
  | nil => rfl
  | cons first rest ih =>
      cases first with
      | function f =>
          rw [declareFunctions, ih]
          rfl
      | _ => exact ih

/-- The last of some functions that are declared under a name. -/
def lastDeclared : List Definition → String → Option Definition
  | [], _ => none
  | f :: fs, name => (lastDeclared fs name).or (if name = f.declaredName then some f else none)

theorem lastDeclared_append (fs gs : List Definition) (name : String) :
    lastDeclared (fs ++ gs) name = (lastDeclared gs name).or (lastDeclared fs name) := by
  induction fs with
  | nil => exact (Option.or_none ..).symm
  | cons f fs ih => rw [List.cons_append, lastDeclared, lastDeclared, ih, Option.or_assoc]

/-- It makes no difference to the last declarations to repeat them all. -/
theorem lastDeclared_twice (fs : List Definition) (name : String) :
    lastDeclared (fs ++ fs) name = lastDeclared fs name := by
  rw [lastDeclared_append]
  cases lastDeclared fs name <;> rfl

/-! ### Stores before and after -/

/-- **Names of the call can be assigned**: its scope is there, and nothing in it is constant. -/
structure Store.Assignable (s : Store) : Prop where
  opened : callScope < s.scopes.size
  mutable : ∀ name v, (s.scope callScope).get? name = some v → v.mutable = true

theorem Store.Assignable.deeper {s : Store} (h : s.Assignable) : s.deeper.Assignable :=
  ⟨h.opened, h.mutable⟩

/-- A name of the call is bound to a function of a definition. -/
def Store.Binds (s : Store) (name : String) (f : Definition) : Prop :=
  ∃ r, (s.scope callScope).get? name = some ⟨.function r, true⟩ ∧
    s.functions[r]? = some (.closure f callEnv)

/-- **A declared function has not been replaced**: its name is bound to a function of its
definition. -/
def Store.Declares (s : Store) (f : Definition) : Prop :=
  s.Binds f.declaredName f

/-- **Functions have been declared**: in the scope of the call their names are bound to functions of
the last definitions with them, and nothing else is changed. -/
structure Store.Declared (fs : List Definition) (s t : Store) : Prop where
  arrays : t.arrays = s.arrays
  objects : t.objects = s.objects
  depth : t.depth = s.depth
  functions : Functions.Extends s.functions t.functions
  size : t.scopes.size = s.scopes.size
  binds : ∀ name f, lastDeclared fs name = some f → t.Binds name f
  keeps : ∀ r name, (r = callScope → lastDeclared fs name = none) →
    (t.scope r).get? name = (s.scope r).get? name

theorem Store.Binds.mono {s t : Store} {name : String} {f : Definition} (h : s.Binds name f)
    (hf : Functions.Extends s.functions t.functions)
    (hs : (t.scope callScope).get? name = (s.scope callScope).get? name) : t.Binds name f := by
  obtain ⟨r, hr, hc⟩ := h
  exact ⟨r, hs.trans hr, hf _ _ hc⟩

theorem Store.Binds.opened {s : Store} {name : String} {f : Definition} (h : s.Binds name f) :
    callScope < s.scopes.size := by
  obtain ⟨r, hr, -⟩ := h
  by_contra hlt
  rw [Store.scope_eq, Scopes.scope_of_le (Nat.le_of_not_lt hlt)] at hr
  cases hr

theorem Store.Binds.mutable {s : Store} {name : String} {f : Definition} (h : s.Binds name f)
    (v : Variable) (hv : (s.scope callScope).get? name = some v) : v.mutable = true := by
  obtain ⟨r, hr, -⟩ := h
  rw [hr] at hv
  cases hv
  rfl

namespace Store.Declared
variable {s s' t t' u : Store} {fs gs : List Definition}

theorem refl (s : Store) : Store.Declared [] s s where
  arrays := rfl
  objects := rfl
  depth := rfl
  functions := .refl _
  size := rfl
  binds _ _ h := by cases h
  keeps _ _ _ := rfl

theorem trans (h : Store.Declared fs s t) (h' : Store.Declared gs t u) :
    Store.Declared (fs ++ gs) s u where
  arrays := h'.arrays.trans h.arrays
  objects := h'.objects.trans h.objects
  depth := h'.depth.trans h.depth
  functions := h.functions.trans h'.functions
  size := h'.size.trans h.size
  binds name f hf := by
    rw [lastDeclared_append] at hf
    cases hg : lastDeclared gs name with
    | some g =>
        rw [hg] at hf
        cases hf
        exact h'.binds name f hg
    | none =>
        rw [hg, Option.none_or] at hf
        exact (h.binds name f hf).mono h'.functions (h'.keeps _ _ fun _ => hg)
  keeps r name hn := by
    simp only [lastDeclared_append, Option.or_eq_none_iff] at hn
    exact (h'.keeps r name fun hr => (hn hr).1).trans (h.keeps r name fun hr => (hn hr).2)

theorem deeper (h : Store.Declared fs s t) : Store.Declared fs s.deeper t.deeper :=
  { h with depth := congrArg (· + 1) h.depth }

theorem assignable (h : Store.Declared fs s t) (hs : s.Assignable) : t.Assignable where
  opened := h.size ▸ hs.opened
  mutable name v hv := by
    cases hf : lastDeclared fs name with
    | some f => exact (h.binds name f hf).mutable v hv
    | none => exact hs.mutable name v ((h.keeps _ _ fun _ => hf).symm.trans hv)

/-- What declarations leave alone is alike where it was. -/
theorem alike_of_scopes (h : Store.Declared fs s t) (h' : Store.Declared gs s' t') (l : s.Alike s')
    (hscopes : ∀ r name, Option.Rel (Variable.Alike t.functions t'.functions)
      ((t.scope r).get? name) ((t'.scope r).get? name)) : t.Alike t' := by
  have grown := l.mono_functions h.functions h'.functions
  have fields (o : Ref) : t.fields o = s.fields o := by rw [Store.fields, h.objects, Store.fields]
  have fields' (o : Ref) : t'.fields o = s'.fields o := by
    rw [Store.fields, h'.objects, Store.fields]
  have items (a : Ref) : t.items a = s.items a := by rw [Store.items, h.arrays, Store.items]
  have items' (a : Ref) : t'.items a = s'.items a := by rw [Store.items, h'.arrays, Store.items]
  exact {
    arrays := by rw [h.arrays, h'.arrays, l.arrays]
    items := fun a => by rw [items, items']; exact grown.items a
    objects := by rw [h.objects, h'.objects, l.objects]
    fields := fun o => by rw [fields, fields']; exact grown.fields o
    scopes := ⟨by rw [h.size, h'.size, l.scopes.size], hscopes⟩
    depth := by rw [h.depth, h'.depth, l.depth] }

/-- A variable that declarations leave alone on both sides. -/
theorem kept (h : Store.Declared fs s t) (h' : Store.Declared gs s' t') (l : s.Alike s') {r : Ref}
    {name : String} (hf : r = callScope → lastDeclared fs name = none)
    (hg : r = callScope → lastDeclared gs name = none) :
    Option.Rel (Variable.Alike t.functions t'.functions) ((t.scope r).get? name)
      ((t'.scope r).get? name) := by
  rw [h.keeps r name hf, h'.keeps r name hg]
  exact (l.mono_functions h.functions h'.functions).scopes.get? r name

/-- **Stores stay alike when the same functions are declared on both sides**, as often as one
likes. -/
theorem alike (h : Store.Declared fs s t) (h' : Store.Declared gs s' t') (l : s.Alike s')
    (same : ∀ name, lastDeclared fs name = lastDeclared gs name) : t.Alike t' := by
  refine h.alike_of_scopes h' l fun r name => ?_
  by_cases hr : r = callScope
  · cases hf : lastDeclared fs name with
    | none => exact h.kept h' l (fun _ => hf) fun _ => (same name).symm.trans hf
    | some f =>
        obtain ⟨p, hp, hc⟩ := h.binds name f hf
        obtain ⟨q, hq, hd⟩ := h'.binds name f ((same name).symm.trans hf)
        rw [hr, hp, hq]
        exact .some ⟨.function hc hd, rfl⟩
  · exact h.kept h' l (fun e => absurd e hr) fun e => absurd e hr

/-- **Declaring a function again** changes nothing that can be told, if its name is bound to a
function of its definition. -/
theorem redeclared {f : Definition} (h : Store.Declared [f] s t) (hf : s.Declares f)
    (l : s.Alike s') : t.Alike s' := by
  have stays := Store.Declared.refl s'
  refine h.alike_of_scopes stays l fun r name => ?_
  have declares : lastDeclared [f] name = if name = f.declaredName then some f else none := rfl
  by_cases hr : r = callScope ∧ name = f.declaredName
  · obtain ⟨rfl, rfl⟩ := hr
    obtain ⟨p, hp, hc⟩ := h.binds f.declaredName f (declares.trans (if_pos rfl))
    obtain ⟨q, hq, hd⟩ := hf
    have was := l.scopes.get? callScope f.declaredName
    rw [← Store.scope_eq, ← Store.scope_eq, hq] at was
    rw [hp]
    generalize (s'.scope callScope).get? f.declaredName = w at was ⊢
    cases was with
    | @some _ w hw =>
        obtain ⟨value, mutable⟩ := w
        obtain ⟨hv, rfl : true = mutable⟩ := hw
        cases hv with
        | same hn => cases hn
        | function hq hg =>
            rw [hd] at hq
            cases hq
            exact .some ⟨.function hc hg, rfl⟩
  · refine h.kept stays l (fun e => ?_) fun _ => rfl
    rw [declares, if_neg fun hn => hr ⟨e, hn⟩]

end Store.Declared

/-! ### Runs -/

section
variable {s : Store}

/-- The store after a function has been declared. -/
theorem declared_one (f : Definition) {σ : Scopes} (hsize : σ.size = s.scopes.size)
    (hself : (σ.scope callScope).get? f.declaredName = some ⟨.function s.functions.size, true⟩)
    (hrest : ∀ r name, ¬ (r = callScope ∧ name = f.declaredName) →
      (σ.scope r).get? name = (s.scope r).get? name) :
    Store.Declared [f] s
      { s with scopes := σ, functions := s.functions.push (.closure f callEnv) } where
  arrays := rfl
  objects := rfl
  depth := rfl
  functions := .push _ _
  size := hsize
  binds name g hg := by
    by_cases hn : name = f.declaredName
    · rw [lastDeclared, lastDeclared, Option.none_or, if_pos hn] at hg
      cases hg
      exact ⟨_, hn ▸ hself, Array.getElem?_push_size ..⟩
    · rw [lastDeclared, lastDeclared, Option.none_or, if_neg hn] at hg
      cases hg
  keeps r name hn := hrest r name fun ⟨hr, hname⟩ => by
    have none := hn hr
    rw [lastDeclared, lastDeclared, Option.none_or, if_pos hname] at none
    cases none

theorem find?_callEnv {σ : Scopes} {name : String} {v : Variable}
    (h : (σ.scope callScope).get? name = some v) :
    σ.find? name callEnv = some (callScope, v) := by
  rw [callEnv, Scopes.find?_cons, h]

/-- What one declaration does, where its name is not bound to a constant. -/
theorem declareFunction_declared (f : Definition) (hopened : callScope < s.scopes.size)
    (hmutable : ∀ v, (s.scope callScope).get? f.declaredName = some v → v.mutable = true) :
    ∃ t, declareFunction f callEnv s = .ok () t ∧ Store.Declared [f] s t := by
  have made : newFunction (.closure f callEnv) s = .ok (.function s.functions.size)
    { s with functions := s.functions.push (.closure f callEnv) } := rfl
  have hvar : varScope callEnv = callScope := rfl
  rw [declareFunction, run_bind, made]
  show ∃ t, (declareVar callEnv f.declaredName >>= fun _ =>
    assignName callEnv f.declaredName (.function s.functions.size)) _ = .ok () t ∧ _
  rw [run_bind, declareVar_run, hvar]
  dsimp only
  cases hv : (Scopes.scope s.scopes callScope).get? f.declaredName with
  | some v =>
      -- the name is bound, so only its value changes
      dsimp only
      rw [assignName_run, find?_callEnv hv]
      dsimp only
      rw [if_pos (hmutable v hv)]
      refine ⟨_, rfl, declared_one f (Scopes.size_put ..) ?_ fun r name hne => ?_⟩
      · rw [Scopes.get?_scope_put _ hopened, if_pos ⟨rfl, rfl⟩]
      · rw [Scopes.get?_scope_put _ hopened, if_neg fun e => hne ⟨e.1.symm, e.2⟩, Store.scope_eq]
  | none =>
      dsimp only
      have hput : callScope <
          (Scopes.put s.scopes callScope f.declaredName ⟨.undefined, true⟩).size := by
        rw [Scopes.size_put]
        exact hopened
      have hself : (Scopes.scope (Scopes.put s.scopes callScope f.declaredName ⟨.undefined, true⟩)
          callScope).get? f.declaredName = some ⟨.undefined, true⟩ := by
        rw [Scopes.get?_scope_put _ hopened, if_pos ⟨rfl, rfl⟩]
      rw [assignName_run, Store.scopes_withScopes, find?_callEnv hself]
      refine ⟨_, rfl, declared_one f ?_ ?_ fun r name hne => ?_⟩
      · rw [Scopes.size_put, Scopes.size_put]
      · rw [Scopes.get?_scope_put _ hput, if_pos ⟨rfl, rfl⟩]
      · have hne' : ¬ (callScope = r ∧ name = f.declaredName) := fun e => hne ⟨e.1.symm, e.2⟩
        rw [Scopes.get?_scope_put _ hput, if_neg hne', Scopes.get?_scope_put _ hopened,
          if_neg hne', Store.scope_eq]

/-- **What declarations do.** -/
theorem declareAll_run : ∀ (fs : List Definition) {s : Store}, s.Assignable →
    ∃ t, declareAll callEnv fs s = .ok () t ∧ Store.Declared fs s t
  | [], s, _ => ⟨s, rfl, .refl s⟩
  | f :: fs, s, h => by
      obtain ⟨t, hrun, ht⟩ := declareFunction_declared f h.opened (h.mutable _)
      obtain ⟨u, hrest, hu⟩ := declareAll_run fs (ht.assignable h)
      refine ⟨u, ?_, ht.trans hu⟩
      show (declareFunction f callEnv >>= fun _ => declareAll callEnv fs) s = _
      rw [run_bind, hrun]
      exact hrest

end

end Stencil.Script
