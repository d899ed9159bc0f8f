import Stencil.Proofs.Names.Free

/-!
# Runs — the helper object as a parameter

A call passes the helper object as the second argument, and the outermost scope has it as `_`.  A
script that never declares or assigns `_` finds the same value under that name whether its function
takes the second argument or not.  `helperDiscipline` hides the parameter: what is left without it
are the scopes of a function that does not take it.

* `Scopes.withoutParameter`: the scopes without the parameter.
* `apply_helper`: a call ends alike with the parameter and without it.
-/

namespace Stencil.Script

/-- Whether statements declare or assign a name, in functions inside too. -/
def Writes (body : List Stmt) (name : String) : Prop :=
  ∃ m ∈ mentionsBody body, m.writes name

instance (m : Mention) (name : String) : Decidable (m.writes name) :=
  match m with
  | .read _ => .isFalse id
  | .target _ | .declared _ _ | .parameter _ | .named _ | .stray => inferInstanceAs (Decidable (_ = _))

instance (body : List Stmt) (name : String) : Decidable (Writes body name) :=
  inferInstanceAs (Decidable (∃ m ∈ mentionsBody body, m.writes name))

/-! ### Scopes without a name -/

namespace Scope

/-- A scope without a name. -/
def without (scope : Scope) (name : String) : Scope :=
  scope.filter (·.1 != name)

theorem get?_without (scope : Scope) (name word : String) :
    (scope.without name).get? word = if word = name then none else scope.get? word := by
  induction scope with
  | nil => simp [without, get?]
  | cons head rest ih =>
      obtain ⟨n, w⟩ := head
      simp only [without, get?] at ih ⊢
      by_cases hn : n = name
      · subst hn
        by_cases hw : word = n
        · simpa [hw] using ih
        · have hw' : (word == n) = false := by simp [hw]
          simpa [hw, List.lookup_cons, hw'] using ih
      · by_cases hw : word = n
        · subst hw
          simp [hn]
        · have hw' : (word == n) = false := by simp [hw]
          simpa [hn, List.lookup_cons, hw'] using ih

theorem without_put (scope : Scope) {name word : String} (h : word ≠ name) (v : Variable) :
    (scope.put word v).without name = (scope.without name).put word v := by
  induction scope with
  | nil => simp [without, put, h]
  | cons head rest ih =>
      obtain ⟨n, w⟩ := head
      simp only [without] at ih ⊢
      by_cases hw : n = word
      · subst hw
        simp [put, h]
      · by_cases hn : n = name
        · subst hn
          simp [put, hw, ih]
        · simp [put, hw, hn, ih]

end Scope

namespace Scopes

/-- The scope of a call from outside. -/
def callScope : Nat := 1

/-- The scopes without the helper object as a parameter. -/
def withoutParameter (σ : Scopes) : Scopes :=
  σ.modify callScope (·.without "_")

theorem scope_withoutParameter (σ : Scopes) (r : Ref) :
    σ.withoutParameter.scope r =
      if callScope = r then (σ.scope r).without "_" else σ.scope r := by
  by_cases hr : r < σ.size
  · rw [scope_of_lt (by simpa [withoutParameter] using hr), scope_of_lt hr]
    simp [withoutParameter, Array.getElem_modify]
  · rw [scope_of_le (by simpa [withoutParameter] using hr), scope_of_le (by simpa using hr)]
    simp [Scope.without]

theorem get?_withoutParameter (σ : Scopes) (r : Ref) (name : String) :
    (σ.withoutParameter.scope r).get? name =
      if callScope = r ∧ name = "_" then none else (σ.scope r).get? name := by
  rw [scope_withoutParameter]
  by_cases hr : callScope = r
  · simp [hr, Scope.get?_without]
  · simp [hr]

theorem withoutParameter_opened {σ : Scopes} (h : callScope < σ.size) :
    σ.opened.withoutParameter = σ.withoutParameter.opened := by
  refine Array.ext (by simp [withoutParameter, opened]) fun i hi _ => ?_
  simp only [withoutParameter, opened, Array.size_modify, Array.size_push] at hi
  simp only [withoutParameter, opened, Array.getElem_modify, Array.getElem_push, Array.size_modify]
  by_cases hi' : i < σ.size
  · simp [hi']
  · have : callScope ≠ i := by omega
    simp [hi', this]

theorem withoutParameter_put (σ : Scopes) {name : String} (h : name ≠ "_") (r : Ref)
    (v : Variable) : (σ.put r name v).withoutParameter = σ.withoutParameter.put r name v := by
  refine Array.ext (by simp [withoutParameter, put]) fun i hi _ => ?_
  simp only [withoutParameter, put, Array.getElem_modify]
  split
  · split
    · rw [Scope.without_put _ h]
    · rfl
  · rfl

/-- **The helper object is what `_` means**: it is bound to it in the outermost scope, and to
nothing else in any. -/
structure HelperBound (σ : Scopes) : Prop where
  call : callScope < σ.size
  outermost : ((σ.scope 0).get? "_").isSome
  value : ∀ r v, (σ.scope r).get? "_" = some v → v.value = helper

theorem HelperBound.find? {σ : Scopes} (h : σ.HelperBound) {env : Env}
    (hr : ∃ frame ∈ env, frame.scope = 0) :
    (σ.find? "_" env).map (·.2.value) = some helper := by
  obtain ⟨frame, hm, hr⟩ := hr
  have hfound : (σ.find? "_" env).isSome := find?_of_mem (hr ▸ h.outermost) hm
  obtain ⟨⟨r, v⟩, hv⟩ := Option.isSome_iff_exists.mp hfound
  rw [hv, Option.map_some, h.value r v (get?_of_find? hv)]

theorem HelperBound.opened {σ : Scopes} (h : σ.HelperBound) : σ.opened.HelperBound where
  call := by
    have := h.call
    rw [size_opened]
    omega
  outermost := by rw [scope_opened]; exact h.outermost
  value r v hv := h.value r v (by rwa [scope_opened] at hv)

theorem HelperBound.put {σ : Scopes} (h : σ.HelperBound) {name : String} {r : Ref} {v : Variable}
    (hv : name = "_" → v.value = helper) : (σ.put r name v).HelperBound where
  call := by rw [size_put]; exact h.call
  outermost := (grows_put σ r name v).bound 0 "_" h.outermost
  value q w hw := by
    rw [scope_put] at hw
    split at hw
    · rw [Scope.get?_put] at hw
      split at hw
      · rename_i heq
        cases hw
        exact hv heq.symm
      · exact h.value q w hw
    · exact h.value q w hw

theorem HelperBound.withoutParameter {σ : Scopes} (h : σ.HelperBound) :
    σ.withoutParameter.HelperBound where
  call := by
    rw [Scopes.withoutParameter, Array.size_modify]
    exact h.call
  outermost := by
    rw [get?_withoutParameter, if_neg (by simp [callScope])]
    exact h.outermost
  value r v hv := by
    rw [get?_withoutParameter] at hv
    split at hv
    · cases hv
    · exact h.value r v hv

end Scopes

/-! ### The discipline -/

/-- The discipline of scripts that never declare or assign `_`, with the parameter hidden. -/
def helperDiscipline : Discipline where
  admits m := ¬ m.writes "_"
  excused _ := True
  allowed _ := True
  rooted env := ∃ frame ∈ env, frame.scope = 0
  inv := Scopes.HelperBound
  view := Scopes.withoutParameter
  excused_lexical _ _ := trivial
  allowed_other _ := trivial
  allowed_stray _ := trivial
  allowed_excused _ := trivial
  rooted_cons _ := fun ⟨frame, hm, hr⟩ => ⟨frame, List.mem_cons_of_mem _ hm, hr⟩
  inv_opened h := h.opened
  inv_put h ha hw _ _ := h.put fun hn => absurd (hn ▸ hw) ha
  size_view _ := by simp [Scopes.withoutParameter]
  view_opened h := Scopes.withoutParameter_opened h.call
  view_put {σ m n} _ ha hw r v :=
    Scopes.withoutParameter_put σ (fun hn : n = "_" => ha (hn ▸ hw)) r v
  get?_view {σ m n} _ ha hw r := by
    have hn : n ≠ "_" := fun hn => ha (hn ▸ hw)
    simp [Scopes.get?_withoutParameter, hn]
  value_view {σ env} h hr n := by
    by_cases hn : n = "_"
    · subst hn
      rw [h.find? hr, h.withoutParameter.find? hr]
    · have same : ∀ r, (σ.withoutParameter.scope r).get? n = (σ.scope r).get? n :=
        fun r => by simp [Scopes.get?_withoutParameter, hn]
      rw [Scopes.find?_congr same]

/-! ### Calls -/

/-- What a call does once its parameters are bound. -/
def runBody (steps : Nat) (body : List Stmt) (env : Env) : Run Value := do
  Discipline.hoist env body
  let completion ← asCall (execAll steps body env)
  match completion with
  | .return v => pure v
  | _ => pure .undefined

theorem safe_runBody {D : Discipline} {s : Store} {env : Env} (g : D.Good s)
    (p : D.Place s.scopes env) {body : List Stmt} (ha : ∀ m ∈ mentionsBody body, D.admits m)
    (hk : ∀ n ∈ usesBody [] body, n ∈ hoistedNames body ∨ D.Knows s.scopes env n) (steps : Nat) :
    D.Safe (runBody steps body env) s := by
  refine (Discipline.holds_hoist g p ha hk).bind fun _ t g₁ _ hb => ?_
  have hrun : D.Safe (asCall (execAll steps body env)) t :=
    Discipline.safe_asCall ((Discipline.runs steps).execAll body env (g₁.withHeap rfl rfl) hb)
  refine hrun.bind fun completion u g₂ _ _ => ?_
  cases completion <;> exact Discipline.safe_pure g₂ _

/-- The scopes of a call from outside. -/
def callEnv : Env := [⟨Scopes.callScope, true⟩, ⟨0, true⟩]

section
variable {parameters : List String} {body : List Stmt} {arguments left : List Value} {s t : Store}
  (hsize : s.scopes.size = Scopes.callScope)
  (h : bindParameters callEnv parameters arguments (s.withScopes (Scopes.opened s.scopes)) =
    .ok left t)
include hsize h

/-- What a call from outside of a function without a parameter for the remaining arguments binds. -/
theorem enter_run : enter ⟨none, parameters, none, body⟩ globalEnv arguments s =
    (Discipline.hoist callEnv body >>= fun _ => pure callEnv) t := by
  have hnew : newScope true globalEnv s = .ok callEnv (s.withScopes (Scopes.opened s.scopes)) := by
    rw [newScope_run, hsize]
    rfl
  rw [Discipline.enter_eq, run_bind, hnew]
  exact (run_bind _ _ _).trans (by rw [show Definition.parameters _ = parameters from rfl, h]; rfl)

/-- A call from outside of such a function. -/
theorem invoke_run {n : Nat} (hdepth : s.depth < maxCallDepth) :
    invoke (n + 1) ⟨none, parameters, none, body⟩ globalEnv arguments s =
      runBody n body callEnv t := by
  rw [Script.invoke, run_get_bind, if_neg (Nat.not_le_of_lt hdepth), run_bind,
    enter_run hsize h, runBody]
  simp only [run_bind]
  cases Discipline.hoist callEnv body t <;> rfl

end

theorem importDocument_initial {data : Json.Document} {v : Value} {s : Store}
    (h : importDocument data Store.initial = .ok v s) :
    s.scopes = #[globalScope] ∧ s.functions = Store.initial.functions ∧ s.depth = 0 := by
  have heap := onHeap_importDocument data
  have hscopes := heap.scopes Store.initial
  have hfunctions := heap.functions Store.initial
  have hdepth := heap.depth Store.initial
  rw [h] at hscopes hfunctions hdepth
  exact ⟨hscopes, hfunctions, hdepth⟩

/-- After the data is made, a call from outside can begin. -/
theorem importDocument_ready {data : Json.Document} {v : Value} {s : Store}
    (h : importDocument data Store.initial = .ok v s) :
    s.scopes.size = Scopes.callScope ∧ s.depth < maxCallDepth := by
  obtain ⟨hscopes, -, hdepth⟩ := importDocument_initial h
  rw [hscopes, hdepth]
  exact ⟨rfl, by decide⟩

/-- The text that a call from outside makes of its end. -/
def resultText : Outcome Value → Except Stop String
  | .ok v t => .ok (t.text v)
  | .error e _ => .error e

/-- A call from outside, from where its parameters are bound. -/
theorem apply_run {parameters : List String} {body : List Stmt} {left : List Value} {t : Store}
    {data : Json.Document} {v : Value} {s : Store}
    (h : importDocument data Store.initial = .ok v s)
    (hb : bindParameters callEnv parameters [v, helper] (s.withScopes (Scopes.opened s.scopes)) =
      .ok left t) (n : Nat) :
    Definition.apply ⟨none, parameters, none, body⟩ (n + 1) data =
      resultText (runBody n body callEnv t) := by
  obtain ⟨hsize, hlt⟩ := importDocument_ready h
  rw [Definition.apply, callWith, run_bind, h]
  dsimp only
  rw [run_bind, invoke_run hsize hb hlt]
  cases runBody n body callEnv t <;> rfl

/-- The scopes in which the body of a call from outside runs, with its only parameter bound. -/
def oneBound (parameter : String) (v : Value) : Scopes :=
  #[globalScope, [(parameter, ⟨v, true⟩)]]

/-- The same scopes with the helper object bound too. -/
def bothBound (parameter : String) (v : Value) : Scopes :=
  (oneBound parameter v).put Scopes.callScope "_" ⟨helper, true⟩

section
variable {parameter : String} (hp : parameter ≠ "_") (v : Value)

theorem bindParameters_one (s : Store) (h : s.scopes = #[globalScope]) :
    bindParameters callEnv [parameter] [v, helper] (s.withScopes (Scopes.opened s.scopes)) =
      .ok [helper] (s.withScopes (oneBound parameter v)) := by
  rw [h]
  rfl

theorem bindParameters_both (s : Store) (h : s.scopes = #[globalScope]) :
    bindParameters callEnv [parameter, "_"] [v, helper] (s.withScopes (Scopes.opened s.scopes)) =
      .ok [] (s.withScopes (bothBound parameter v)) := by
  rw [h]
  rfl

theorem place_bothBound : helperDiscipline.Place (bothBound parameter v) callEnv := by
  refine ⟨⟨nofun, fun frame hm => ?_⟩, ⟨0, true⟩, by simp [callEnv], rfl⟩
  have hsize : Array.size (bothBound parameter v) = 2 := by simp [bothBound, oneBound]
  simp only [callEnv, List.mem_cons, List.not_mem_nil, or_false] at hm
  rcases hm with rfl | rfl <;> simp [hsize, Scopes.callScope]

include hp

theorem withoutParameter_bothBound :
    (bothBound parameter v).withoutParameter = oneBound parameter v := by
  have hput : Scope.put [(parameter, ⟨v, true⟩)] "_" ⟨helper, true⟩ =
      [(parameter, ⟨v, true⟩), ("_", ⟨helper, true⟩)] := by
    simp [Scope.put, hp]
  have hwithout : Scope.without [(parameter, ⟨v, true⟩), ("_", ⟨helper, true⟩)] "_" =
      [(parameter, ⟨v, true⟩)] := by
    simp [Scope.without, hp]
  show #[globalScope, Scope.without (Scope.put [(parameter, ⟨v, true⟩)] "_" ⟨helper, true⟩) "_"] = _
  rw [hput, hwithout]
  rfl

theorem helperBound_bothBound : Scopes.HelperBound (bothBound parameter v) := by
  have initial : Scopes.HelperBound #[globalScope, []] := by
    refine ⟨by decide, rfl, fun r w hw => ?_⟩
    match r, hw with
    | 0, hw => cases hw; rfl
    | 1, hw => cases hw
    | r + 2, hw => rw [Scopes.scope_of_le (by simp)] at hw; cases hw
  have one : Scopes.HelperBound (oneBound parameter v) :=
    @Scopes.HelperBound.put _ initial parameter Scopes.callScope ⟨v, true⟩ fun h => absurd h hp
  exact one.put fun _ => rfl

end

/-- **The helper object as a parameter.**  In a function that never declares or assigns `_`, a
call ends alike whether it takes the helper object as a second parameter or not. -/
theorem apply_helper {parameter : String} {body : List Stmt} (hp : parameter ≠ "_")
    (hw : ¬ Writes body "_") (steps : Nat) (data : Json.Document) :
    Definition.apply ⟨none, [parameter, "_"], none, body⟩ steps data =
      Definition.apply ⟨none, [parameter], none, body⟩ steps data := by
  cases hdata : importDocument data Store.initial with
  | error e s => simp only [Definition.apply, callWith, run_bind, hdata]
  | ok v s =>
      cases steps with
      | zero => simp only [Definition.apply, callWith, run_bind, hdata, invoke]
      | succ n =>
          obtain ⟨hscopes, hfunctions, -⟩ := importDocument_initial hdata
          rw [apply_run hdata (bindParameters_one v s hscopes),
            apply_run hdata (bindParameters_both v s hscopes)]
          have good : helperDiscipline.Good (s.withScopes (bothBound parameter v)) := by
            refine ⟨helperBound_bothBound hp v, fun d env hm => ?_⟩
            exact absurd (hfunctions ▸ hm : .closure d env ∈ Store.initial.functions)
              no_closure_initial
          have same := (safe_runBody good (place_bothBound v)
            (fun m hm hwrites => hw ⟨m, hm, hwrites⟩) (fun _ _ => .inr (.inl trivial)) n).seen
          have hseen : helperDiscipline.seen (s.withScopes (bothBound parameter v)) =
              s.withScopes (oneBound parameter v) :=
            congrArg s.withScopes (withoutParameter_bothBound hp v)
          rw [hseen] at same
          rw [same]
          cases runBody n body callEnv (s.withScopes (bothBound parameter v)) with
          | error e t => rfl
          | ok result t =>
              show Except.ok (t.text result) = Except.ok ((helperDiscipline.seen t).text result)
              rw [Discipline.seen, Store.text_withScopes]

end Stencil.Script
