import Stencil.Proofs.Grammar.Inverse
import Stencil.Proofs.Jobs.Orderly
import Stencil.Proofs.Runs.Helper
import Stencil.Proofs.Twin.Import

/-!
# Jobs — fallbacks

Functions from outside are well-formed, and so are all functions and places in a call of one
(`Definition.holds_log`).  The evaluator has answers for trees that are not: a fault for a target
that is none, the empty name for a function without one, an ordinary end for a body that ends in a
jump.  None of them is ever given (`fallbacks_unreachable`).
-/

namespace Stencil.Script

/-- **Functions from outside**: read from a text, or built from parameters and the text of a body. -/
def Definition.FromText (d : Definition) : Prop :=
  (∃ source, parseDefinition source = .ok d) ∨
    ∃ parameters body, Definition.build parameters body = .ok d

theorem Definition.FromText.formed {d : Definition} (h : d.FromText) : d.Formed := by
  rcases h with ⟨source, h⟩ | ⟨parameters, source, h⟩
  · exact formed_of_parseDefinition h
  · rw [Definition.build] at h
    split at h
    · cases h
    · rename_i hlegal
      cases hbody : parseBody source with
      | error e => rw [hbody] at h; cases h
      | ok body =>
          rw [hbody] at h
          cases h
          refine ⟨fun word hw => ?_, formed_of_parseBody hbody⟩
          have hnone := List.find?_eq_none.mp hlegal word (by simpa using hw)
          simpa using hnone

/-- The function `{const x=null;var y;x=y}`, which binds in a block and assigns to a constant. -/
def bindsInBlock : Definition :=
  ⟨none, [], none, [.block [.declare .const [("x", some .null)], .declare .var [("y", none)],
    .expr (.assign none (.name "x") (.name "y"))]]⟩

theorem bindsInBlock_fromText : bindsInBlock.FromText := by
  have formed : bindsInBlock.Formed := by
    simp only [bindsInBlock, Definition.Formed, FormedBody, Stmt.Formed, FormedBindings, FormedOption,
      Expr.Formed]
    decide
  have writable : bindsInBlock.Writable := by
    simp only [bindsInBlock, Definition.Writable, WritableBody, Stmt.Writable, WritableBindings,
      WritableOption, Expr.Writable]
    decide
  exact .inl ⟨_, Parser.parseDefinition_text formed writable (by decide)⟩

/-! ### Calls from outside -/

section
variable {d : Definition} {steps : Nat} {data : Json.Document}

theorem mem_log {e : Entry} (h : e ∈ d.log steps data) :
    ∃ v s, importDocument data Store.initial = .ok v s ∧
      e ∈ Job.log steps (.invoke d globalEnv [v, helper]) s :=
  mem_after h

/-- Before a call from outside there are no closures. -/
theorem inv_of_import {v : Value} {s : Store} (h : importDocument data Store.initial = .ok v s) :
    Horizon.open.Inv s := by
  obtain ⟨-, hfunctions, -⟩ := importDocument_initial h
  exact ⟨Nat.zero_le _, .inr fun _ => trivial, fun d env hm => absurd (hfunctions ▸ hm) no_closure_initial⟩

/-- **In a call of a well-formed function every entry finds what it relies on.** -/
theorem Definition.holds_log (hd : d.Formed) (steps : Nat) (data : Json.Document) :
    ∀ e ∈ d.log steps data, Horizon.open.contract.Holds e := by
  intro e he
  obtain ⟨v, s, himport, he⟩ := mem_log he
  have relies : Horizon.open.contract.pre (.invoke d globalEnv [v, helper]) s := hd
  exact Horizon.open.sound.holds (inv_of_import himport) relies
    (fun e _ => by cases e <;> trivial) e he

/-- Where a call from outside ends in a fault, an operation does. -/
theorem Definition.fault_log {f : Fault} (h : d.apply steps data = .error (.fault f)) :
    ∃ o s u, .op o s ∈ d.log steps data ∧ o.run s = .error (.fault f) u := by
  rw [Definition.apply, callWith, run_bind] at h
  cases himport : importDocument data Store.initial with
  | error e t =>
      obtain ⟨v, u, hok, -⟩ := grown_importDocument data Store.initial
      rw [himport] at hok
      cases hok
  | ok v s =>
      rw [himport] at h
      dsimp only at h
      rw [run_bind] at h
      cases hrun : invoke steps d globalEnv [v, helper] s with
      | ok a t => rw [hrun] at h; cases h
      | error e t =>
          rw [hrun] at h
          cases h
          have reports := Job.reports steps (.invoke d globalEnv [v, helper]) s
          obtain ⟨o, s', u, hm, hfail⟩ := reports.fault f t hrun
          exact ⟨o, s', u, by rwa [Definition.log, after_ok himport], hfail⟩

end

/-! ### What is never done -/

/-- The name that an operation binds or assigns to. -/
def Op.binds? : Op → Option String
  | .define _ name _ _ | .declare _ name _ _ | .declareVar _ name | .assign _ name _ => some name
  | _ => none

theorem Horizon.isName_of_admits {w : Horizon} {σ : Scopes} {o : Op} {name : String}
    (h : w.Admits σ o) (hn : o.binds? = some name) : isName name = true := by
  cases o with
  | define | declare | declareVar => cases hn; exact h.1
  | assign => cases hn; exact h
  | _ => cases hn

theorem OnHeap.run_ne_invalidTarget {α : Type} {m : Run α} (h : OnHeap m) (s u : Store) :
    m s ≠ .error (.fault .invalidTarget) u := by
  intro hr
  cases h.fault s _ u hr

/-- Only a target that is none is an invalid target. -/
theorem Op.eq_fail_of_invalidTarget {o : Op} {s u : Store}
    (h : o.run s = .error (.fault .invalidTarget) u) : o = .fail .invalidTarget := by
  by_cases hheap : o.OfHeap
  · exact absurd h ((Op.onHeap hheap).run_ne_invalidTarget s u)
  cases o with
  | fail f => cases h; rfl
  | look | newFunction | newScope | define => cases h
  | declare env name v m =>
      simp only [Op.run, declare_run] at h
      split at h <;> cases h
  | declareVar env name =>
      simp only [Op.run, declareVar_run] at h
      split at h <;> cases h
  | lookUp env name =>
      simp only [Op.run, lookUp_run] at h
      split at h <;> cases h
  | typeOfName env name =>
      simp only [Op.run, typeOfName_run] at h
      split at h <;> cases h
  | assign env name v =>
      simp only [Op.run, assignName_run] at h
      split at h
      · split at h <;> cases h
      · cases h
  | _ => exact absurd trivial hheap

theorem Horizon.not_invalidTarget {w : Horizon} {o : Op} {s u : Store} (h : w.Admits s.scopes o) :
    o.run s ≠ .error (.fault .invalidTarget) u := by
  intro hr
  cases Op.eq_fail_of_invalidTarget hr
  exact h rfl

/-- Where a body begins, it is well-formed, and its names are bound. -/
theorem Horizon.relies_of_enter {w : Horizon} {d : Definition} {env inner : Env}
    {arguments : List Value} {s t : Store} (hi : w.Inv s) (hd : d.Formed)
    (h : enter d env arguments s = .ok inner t) :
    w.Inv t ∧ w.Relies (.execAll d.body inner) t.deeper := by
  have kept := w.sound.kept_course (n := 0) (w.sound.kept 0) (.enter d env arguments) s hi
    (Horizon.follows_enter hi hd)
  rw [Course.run_enter] at kept
  obtain ⟨hit, -, places, base⟩ := kept.2 (fun e _ => by cases e <;> trivial) inner t h
  exact ⟨hit, FormedBody.inLoop _ hd.body, places, base⟩

/-- A body ends in no jump. -/
theorem Horizon.not_jumps_of_body {w : Horizon} {n : Nat} {d : Definition} {env inner : Env}
    {arguments : List Value} {s t u : Store} {c : Completion} (hi : w.Inv s) (hd : d.Formed)
    (henter : enter d env arguments s = .ok inner t)
    (hbody : asCall (execAll n d.body inner) t = .ok c u) : ¬ c.Jumps := by
  obtain ⟨hit, relies⟩ := Horizon.relies_of_enter hi hd henter
  obtain ⟨x, hrun, -⟩ := asCall_eq_ok hbody
  have hdeeper : w.contract.inv t.deeper := (w.steady.deeper t hit).1
  have result := w.sound.result (n := n) (j := .execAll d.body inner) hdeeper relies
    (fun e _ => by cases e <;> trivial) hrun
  exact result.2.2 hd.body

/-- **Fallbacks are never reached.**  What the parser accepts is well-formed.  In a call of it no
target is invalid, all names that are bound or assigned to are names, and no body ends in a jump. -/
theorem fallbacks_unreachable :
    (∀ source body, parseBody source = .ok body → FormedBody False body) ∧
    (∀ source d, parseDefinition source = .ok d → d.Formed) ∧
    ∀ d : Definition, d.FromText → ∀ steps data,
      (d.apply steps data ≠ .error (.fault .invalidTarget) ∧
        ∀ o s u, .op o s ∈ d.log steps data → o.run s ≠ .error (.fault .invalidTarget) u) ∧
      (∀ o s, .op o s ∈ d.log steps data → ∀ name, o.binds? = some name → isName name = true) ∧
      ∀ n f env arguments s, .job (n + 1) (.invoke f env arguments) s ∈ d.log steps data →
        ∀ inner t completion u, enter f env arguments s = .ok inner t →
          asCall (execAll n f.body inner) t = .ok completion u →
            completion ≠ .break ∧ completion ≠ .continue := by
  refine ⟨fun _ _ => formed_of_parseBody, fun _ _ => formed_of_parseDefinition,
    fun d hd steps data => ?_⟩
  have holds := d.holds_log hd.formed steps data
  have valid : ∀ o s u, .op o s ∈ d.log steps data → o.run s ≠ .error (.fault .invalidTarget) u :=
    fun o s u hm => Horizon.not_invalidTarget (holds _ hm).2
  refine ⟨⟨fun h => ?_, valid⟩, fun o s hm name => Horizon.isName_of_admits (holds _ hm).2, ?_⟩
  · obtain ⟨o, s, u, hm, hr⟩ := d.fault_log h
    exact valid o s u hm hr
  · intro n f env arguments s hm inner t completion u henter hbody
    have stays := Horizon.not_jumps_of_body (holds _ hm).1 (holds _ hm).2 henter hbody
    exact ⟨fun h => stays (h ▸ trivial), fun h => stays (h ▸ trivial)⟩

theorem fallbacks_unreachable_bindsInBlock : bindsInBlock.FromText ∧
    bindsInBlock.apply 9 .null ≠ .error (.fault .invalidTarget) ∧
    ∀ o s, .op o s ∈ bindsInBlock.log 9 .null → ∀ name, o.binds? = some name →
      isName name = true := by
  obtain ⟨⟨apply, -⟩, names, -⟩ := fallbacks_unreachable.2.2 bindsInBlock bindsInBlock_fromText 9 .null
  exact ⟨bindsInBlock_fromText, apply, names⟩

end Stencil.Script
