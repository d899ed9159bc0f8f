import Stencil.Proofs.Jobs.Fallbacks

/-!
# Jobs — constants

A binding that cannot be assigned to is never changed.  Names are bound and assigned to in several
ways, two of which do not ask what was there; but these bind in new scopes only.

* `constants_stay`: what is bound as a constant stays so, from where it is made to the end of the
  run, and a run that assigns to it or declares it again ends there.
-/

namespace Stencil.Script

/-- The constant that an operation makes: its scope, its name and its value. -/
def Op.constant? : Op → Option (Ref × String × Value)
  | .define env name value false | .declare env name value false => some (ownScope env, name, value)
  | _ => none

/-- The store that a call from outside leaves. -/
def Definition.leaves (d : Definition) (steps : Nat) (data : Json.Document) : Store :=
  storeOf (callWith steps d data Store.initial)

theorem mutable_of_globalScope {name : String} {v : Variable} (h : globalScope.get? name = some v) :
    v.mutable = false := by
  have constant : ∀ p ∈ globalScope, p.2.mutable = false := by
    simp [globalScope]
  obtain ⟨before, after, hsplit, -⟩ := List.lookup_eq_some_iff.mp h
  exact constant (name, v) (by simp [hsplit])

/-- What is bound as a constant in one store is bound to the same in another. -/
def Store.KeepsConstants (s t : Store) : Prop :=
  Scopes.KeepsConstants s.scopes t.scopes

theorem Horizon.get?_of_constant? {w : Horizon} {o : Op} {s t : Store} {a : o.Result} {r : Ref}
    {name : String} {value : Value} (h : w.Admits s.scopes o) (hr : o.run s = .ok a t)
    (hc : o.constant? = some (r, name, value)) :
    (t.scope r).get? name = some ⟨value, false⟩ := by
  cases o with
  | define env n v m =>
      cases m <;> cases hc
      rw [Op.run, define_run] at hr
      cases hr
      rw [Store.scope_eq, Store.scopes_withScopes, Scopes.get?_scope_put _ h.2.2.1,
        if_pos ⟨rfl, rfl⟩]
  | declare env n v m =>
      cases m <;> cases hc
      simp only [Op.run, declare_run] at hr
      split at hr
      · cases hr
      · cases hr
        rw [Store.scope_eq, Store.scopes_withScopes, Scopes.get?_scope_put _ h.2.2,
          if_pos ⟨rfl, rfl⟩]
  | _ => cases hc

/-- An operation of a well-formed script keeps the constants, also where it fails. -/
theorem Horizon.keepsConstants {w : Horizon} {o : Op} {s : Store} (h : w.Admits s.scopes o) :
    s.KeepsConstants (storeOf (o.run s)) := by
  cases hr : o.run s with
  | ok a t => exact (Op.effect hr).scopes.keepsConstants (Horizon.sparesConstants_of_admits h)
  | error e t =>
      obtain ⟨rfl, -⟩ := Op.run_error hr
      exact Scopes.KeepsConstants.refl _

section
variable {d : Definition} {steps : Nat} {data : Json.Document}

/-- **Constants along the log of a call from outside.** -/
theorem Definition.keptAlong_constants (hd : d.Formed) (steps : Nat) (data : Json.Document) :
    KeptAlong Store.KeepsConstants (d.log steps data) Store.initial (d.leaves steps data) := by
  obtain ⟨v, s, himport, -⟩ := grown_importDocument data Store.initial
  have holds := d.holds_log hd steps data
  rw [Definition.log, after_ok himport] at holds ⊢
  have kept := Job.keptAlong (K := Store.KeepsConstants) (fun _ _ _ => .trans) (fun s => .refl _)
    (fun s => .refl _) (fun s => .refl _) steps (.invoke d globalEnv [v, helper]) s
    fun o t hm => Horizon.keepsConstants (holds _ hm).2
  refine kept.imp (fun _ _ _ => .trans) ?_ ?_
  · show Scopes.KeepsConstants _ _
    rw [(importDocument_initial himport).1]
    exact .refl _
  · rw [Definition.leaves, callWith, run_bind, himport]
    dsimp only
    rw [run_bind]
    show Store.KeepsConstants (storeOf (invoke steps d globalEnv [v, helper] s)) _
    cases invoke steps d globalEnv [v, helper] s <;> exact .refl _

/-- A call from outside ends where an operation fails. -/
theorem Definition.apply_of_log {o : Op} {s u : Store} {e : Stop}
    (hm : .op o s ∈ d.log steps data) (hr : o.run s = .error e u) : d.apply steps data = .error e := by
  obtain ⟨v, t, himport, hm⟩ := mem_log hm
  obtain ⟨u, hrun⟩ := (Job.reports steps (.invoke d globalEnv [v, helper]) t).fails o s e u hm hr
  rw [Definition.apply, callWith, run_bind, himport]
  dsimp only
  rw [run_bind, show invoke steps d globalEnv [v, helper] t = .error e u from hrun]

end

/-- **Constants stay.**  The constants of the language are there in every state of a call, and those
that an operation makes are there as soon as they are made.  All that is bound as a constant is bound
to the same value in every later state, as a constant.  A run that assigns to a constant, or declares
a name that is bound in the same scope, ends with the fault that says so. -/
theorem constants_stay (d : Definition) (hd : d.FromText) (steps : Nat) (data : Json.Document) :
    (∀ e ∈ d.log steps data, ∀ name v, globalScope.get? name = some v →
      v.mutable = false ∧ (e.before.scope 0).get? name = some v) ∧
    (∀ o s t, .op o s ∈ d.log steps data → ∀ a, o.run s = .ok a t →
      ∀ r name value, o.constant? = some (r, name, value) →
        (t.scope r).get? name = some ⟨value, false⟩) ∧
    ((d.log steps data).Pairwise fun e f =>
      e.passed.KeepsConstants f.before ∧ e.passed.KeepsConstants f.after) ∧
    (∀ e ∈ d.log steps data, e.before.KeepsConstants e.passed ∧
      e.passed.KeepsConstants (d.leaves steps data)) ∧
    (∀ env name value s, .op (.assign env name value) s ∈ d.log steps data →
      ∀ r v, s.find? name env = some (r, v) → v.mutable = false →
        d.apply steps data = .error (.fault (.constantAssignment name))) ∧
    (∀ env name value mutable s, .op (.declare env name value mutable) s ∈ d.log steps data →
      ∀ v, (s.scope (ownScope env)).get? name = some v →
        d.apply steps data = .error (.fault (.alreadyDeclared name))) ∧
    ∀ name, (Fault.constantAssignment name).report =
        "TypeError" ++ ": " ++ ("Assignment to constant variable '" ++ name ++ "'.") ∧
      (Fault.alreadyDeclared name).report =
        "TypeError" ++ ": " ++ ("Identifier '" ++ name ++ "' has already been declared") := by
  have holds := d.holds_log hd.formed steps data
  have kept := Definition.keptAlong_constants hd.formed steps data
  refine ⟨fun e he name v hv => ?_, fun o s t hm a hr r name value hc =>
    Horizon.get?_of_constant? (holds _ hm).2 hr hc, kept.pairwise, fun e he =>
    ⟨(kept.own e he).1, kept.last e he⟩, fun env name value s hm r v hv hc => ?_,
    fun env name value mutable s hm v hv => ?_, fun name => ⟨rfl, rfl⟩⟩
  · have constant : v.mutable = false := mutable_of_globalScope hv
    exact ⟨constant, kept.first e he 0 name v hv constant⟩
  · refine Definition.apply_of_log hm (u := s) ?_
    rw [Store.find?_eq] at hv
    rw [Op.run, assignName_run, hv]
    simp only [hc]
    rfl
  · refine Definition.apply_of_log hm (u := s) ?_
    rw [Op.run, declare_run, ← Store.scope_eq, hv]

/-- The block of `bindsInBlock` assigns to its constant, and the call ends there. -/
theorem constants_stay_bindsInBlock : ∃ env value s,
    .op (.assign env "x" value) s ∈ bindsInBlock.log 12 .null ∧
      bindsInBlock.apply 12 .null = .error (.fault (.constantAssignment "x")) := by
  refine ⟨_, _, _, List.mem_of_getElem? (i := 24) rfl, ?_⟩
  exact (constants_stay bindsInBlock bindsInBlock_fromText 12 .null).2.2.2.2.1 _ _ _ _
    (List.mem_of_getElem? (i := 24) rfl) _ _ rfl rfl

end Stencil.Script
