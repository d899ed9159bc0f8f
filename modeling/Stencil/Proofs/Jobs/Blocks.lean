import Stencil.Proofs.Jobs.Fallbacks

/-!
# Jobs — blocks

Blocks, loops with a header, and calls bind names in scopes of their own.  That `var` and declared
functions bind further outside does not show: their names are hoisted, so that they are bound there
already when the body of the function begins.

* `blocks_leak_no_names`: after such a job the scopes there were before have the same names, and all
  names that a body declares for the whole function are bound when it begins.
-/

namespace Stencil.Script

/-- Whether a job binds new names in scopes of its own only: not statements, other than blocks and
loops with a header. -/
def Job.Encloses : Job → Prop
  | .exec stmt _ => stmt.ownsScope
  | .execAll _ _ | .execBindings _ _ _ | .execLoop _ _ _ _ | .execEach _ _ _ _ => False
  | _ => True

/-- The names that a job may declare for the whole function. -/
def Job.hoisted : Job → List String
  | .exec stmt _ => stmt.hoisted
  | .execAll body _ => hoistedNames body
  | .execBindings kind bindings _ => (Stmt.declare kind bindings).hoisted
  | .execLoop _ _ body _ => body.hoisted
  | .execEach binding _ body _ => loopHoisted binding ++ body.hoisted
  | _ => []

/-- The scopes in which a job carries out statements. -/
def Job.place : Job → Env
  | .exec _ env | .execAll _ env | .execBindings _ _ env | .execLoop _ _ _ env
  | .execEach _ _ _ env => env
  | _ => []

/-- The scopes of a store have the same names in another, with the same mutability. -/
def Store.SameNames (s t : Store) : Prop :=
  Scopes.SameNames s.scopes.size s.scopes t.scopes

namespace Horizon
variable {w : Horizon}

theorem Places.mono_horizon {w' : Horizon} {σ : Scopes} {env : Env} {names : List String}
    (h : w.Places σ env names)
    (hh : varScope env = w'.activation → ∀ name ∈ names, w'.hoists name) :
    w'.Places σ env names :=
  ⟨h.stands, h.bound, hh⟩

/-- An operation binds no new names in old scopes, also where it fails. -/
theorem sameNames {o : Op} {s : Store} (h : w.Admits s.scopes o) :
    Scopes.SameNames w.base s.scopes (storeOf (o.run s)).scopes := by
  cases hr : o.run s with
  | ok a t => exact (Op.effect hr).scopes.sameNames (bindsFrom_of_admits h)
  | error e t =>
      obtain ⟨rfl, -⟩ := Op.run_error hr
      exact .refl _ _

/-- **What is kept along a log under a horizon.** -/
theorem keptAlong_names {n : Nat} {j : Job} {s : Store} (hi : w.Inv s) (h : w.Relies j s) :
    KeptAlong (fun s t => Scopes.SameNames w.base s.scopes t.scopes) (Job.log n j s) s
      (storeOf (j.run n s)) := by
  have relies : w.contract.pre j s := h
  have holds := w.sound.holds (n := n) hi relies fun e _ => by cases e <;> trivial
  exact Job.keptAlong (fun _ _ _ => .trans) (fun _ => .refl _ _) (fun _ => .refl _ _)
    (fun _ => .refl _ _) n j s fun o t hm => sameNames (holds _ hm).2

/-- The horizon at which a job begins. -/
def «at» (s : Store) : Horizon := ⟨s.scopes.size, 0, fun _ => True⟩

theorem relies_at {j : Job} {s : Store} (hj : j.Encloses) (h : w.Relies j s) :
    (Horizon.at s).Relies j s := by
  cases j with
  | exec stmt env => exact ⟨h.1, h.2.1.mono_horizon fun _ _ _ => trivial, .inl hj⟩
  | execAll | execBindings | execLoop | execEach => exact hj.elim
  | _ => exact h

theorem inv_at {s : Store} (h : w.Inv s) : (Horizon.at s).Inv s :=
  ⟨Nat.le_refl _, .inr fun _ => trivial, h.closures⟩

/-- The horizon at which the body of a function begins. -/
def ofBody (d : Definition) (inner : Env) : Horizon :=
  ⟨0, varScope inner, (· ∈ hoistedNames d.body)⟩

theorem places_of_relies {j : Job} {s : Store} (h : w.Relies j s) (hne : j.hoisted ≠ []) :
    w.Places s.scopes j.place j.hoisted := by
  cases j with
  | exec | execAll | execBindings | execLoop | execEach => exact h.2.1
  | _ => exact absurd rfl hne

end Horizon

/-- **Blocks leak no names.**  While a block, a loop with a header or a call is carried out, and when
it is over, all scopes there were before have the same names, with the same mutability.  The names
that the body of a function declares for the whole of it are bound when it begins: whatever is
declared in its scope later is one of them, and is bound when it is reached. -/
theorem blocks_leak_no_names (d : Definition) (hd : d.FromText) (steps : Nat)
    (data : Json.Document) :
    (∀ n j s, .job n j s ∈ d.log steps data → j.Encloses →
      s.SameNames (storeOf (j.run n s)) ∧
        ∀ e ∈ Job.log n j s, s.SameNames e.before ∧ s.SameNames e.after) ∧
    (∀ n f env arguments s, .job (n + 1) (.invoke f env arguments) s ∈ d.log steps data →
      ∀ inner t, enter f env arguments s = .ok inner t →
        (∀ name ∈ hoistedNames f.body, ((t.scope (varScope inner)).get? name).isSome) ∧
        (∀ site name u, .op (.declareVar site name) u ∈ Job.log n (.execAll f.body inner) t.deeper →
          varScope site = varScope inner → name ∈ hoistedNames f.body) ∧
        ∀ m j u, .job m j u ∈ Job.log n (.execAll f.body inner) t.deeper →
          varScope j.place = varScope inner → ∀ name ∈ j.hoisted, name ∈ hoistedNames f.body) ∧
    ∀ n j s, .job n j s ∈ d.log steps data →
      ∀ name ∈ j.hoisted, ((s.scope (varScope j.place)).get? name).isSome := by
  have holds := d.holds_log hd.formed steps data
  refine ⟨fun n j s hm hj => ?_, fun n f env arguments s hm inner t henter => ?_,
    fun n j s hm name hn => ?_⟩
  · obtain ⟨hi, relies⟩ := holds _ hm
    have kept := Horizon.keptAlong_names (n := n) (Horizon.inv_at hi) (Horizon.relies_at hj relies)
    exact ⟨kept.ends, fun e he => ⟨kept.first e he, (kept.after (fun _ _ _ => .trans) e he).2⟩⟩
  · obtain ⟨hi, relies⟩ := holds _ hm
    obtain ⟨hit, body⟩ := Horizon.relies_of_enter hi relies henter
    -- within the body the contract is taken with this call as the horizon
    have inv : (Horizon.ofBody f inner).contract.inv t.deeper :=
      ⟨Nat.zero_le _, .inl body.2.1.stands.var, hit.closures⟩
    have pre : (Horizon.ofBody f inner).contract.pre (.execAll f.body inner) t.deeper :=
      ⟨body.1, body.2.1.mono_horizon fun _ _ => id, Nat.zero_le _⟩
    have inside := (Horizon.ofBody f inner).sound.holds (n := n) inv pre
      fun e _ => by cases e <;> trivial
    exact ⟨body.2.1.bound, fun site name u hm => (inside _ hm).2.2.2, fun m j u hm hvar name hn =>
      (Horizon.places_of_relies (inside _ hm).2 (List.ne_nil_of_mem hn)).hoisted hvar name hn⟩
  · exact (Horizon.places_of_relies (holds _ hm).2 (List.ne_nil_of_mem hn)).bound name hn

/-- The block of `bindsInBlock` makes a constant and reaches a `var`. -/
theorem blocks_leak_no_names_bindsInBlock : ∃ n stmt env s,
    .job n (.exec stmt env) s ∈ bindsInBlock.log 12 .null ∧ stmt.ownsScope ∧
      s.SameNames (storeOf (exec n stmt env s)) := by
  refine ⟨_, _, _, _, List.mem_of_getElem? (i := 5) rfl, trivial, ?_⟩
  exact ((blocks_leak_no_names bindsInBlock bindsInBlock_fromText 12 .null).1 _ _ _
    (List.mem_of_getElem? (i := 5) rfl) trivial).1

end Stencil.Script
