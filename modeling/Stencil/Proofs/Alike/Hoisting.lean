import Stencil.Proofs.Alike.Declared
import Stencil.Proofs.Jobs.Activations
import Stencil.Proofs.Runs.Data

/-!
# Alike — hoisting

The functions that are declared directly in a body are bound before the body runs, and bound again to
new functions where their declarations stand.  So it shows where these stand, in two ways: a name that
was assigned in between is reset, and the new function is not the same as the one before.  It does not
show otherwise.

* `execAll_alike`: a body runs alike with its declarations and without them.
* `hoist_alike`: declarations that are moved to the front leave stores that are alike.
* `apply_declarationsFirst`: a call that ends has the same end with its declarations in front.
-/

namespace Stencil.Script
open Scopes (callScope)

/-! ### Declarations in front -/

/-- The statements of a body that declare no function. -/
def otherStatements (body : List Stmt) : List Stmt :=
  body.filter (·.declared?.isNone)

/-- A body with its declarations in front, in the same order. -/
def declarationsFirst (body : List Stmt) : List Stmt :=
  (declaredFunctions body).map .function ++ otherStatements body

/-- **A function with the declarations that stand directly in its body moved to the front of it.** -/
def Definition.declarationsFirst (d : Definition) : Definition :=
  ⟨d.name, d.parameters, d.rest, Script.declarationsFirst d.body⟩

theorem declaredFunctions_map (fs : List Definition) :
    declaredFunctions (fs.map .function) = fs := by
  rw [declaredFunctions, List.filterMap_map]
  exact List.filterMap_some

theorem declaredFunctions_declarationsFirst (body : List Stmt) :
    declaredFunctions (declarationsFirst body) = declaredFunctions body := by
  have others : declaredFunctions (otherStatements body) = [] := by
    refine List.filterMap_eq_nil_iff.mpr fun stmt hm => ?_
    exact Option.isNone_iff_eq_none.mp (List.mem_filter.mp hm).2
  rw [declarationsFirst, declaredFunctions, List.filterMap_append]
  show declaredFunctions _ ++ declaredFunctions _ = _
  rw [others, declaredFunctions_map, List.append_nil]

theorem eq_function_of_declared? {stmt : Stmt} {f : Definition} (h : stmt.declared? = some f) :
    stmt = .function f := by
  cases stmt <;> cases h
  rfl

theorem mem_declarationsFirst {body : List Stmt} {stmt : Stmt} :
    stmt ∈ declarationsFirst body ↔ stmt ∈ body := by
  rw [declarationsFirst, List.mem_append, List.mem_map, otherStatements, List.mem_filter]
  constructor
  · rintro (⟨f, hf, rfl⟩ | ⟨hm, -⟩)
    · obtain ⟨first, hm, hd⟩ := List.mem_filterMap.mp hf
      exact eq_function_of_declared? hd ▸ hm
    · exact hm
  · intro hm
    cases hd : stmt.declared? with
    | some f =>
        exact .inl ⟨f, List.mem_filterMap.mpr ⟨stmt, hm, hd⟩, (eq_function_of_declared? hd).symm⟩
    | none => exact .inr ⟨hm, rfl⟩

theorem mem_hoistedNames {body : List Stmt} {name : String} :
    name ∈ hoistedNames body ↔ ∃ stmt ∈ body, name ∈ stmt.hoisted := by
  induction body with
  | nil => simp [hoistedNames]
  | cons first rest ih => simp only [hoistedNames, List.mem_append, ih, List.exists_mem_cons_iff]

theorem mem_hoistedNames_declarationsFirst {body : List Stmt} {name : String} :
    name ∈ hoistedNames (declarationsFirst body) ↔ name ∈ hoistedNames body := by
  simp only [mem_hoistedNames, mem_declarationsFirst]

/-! ### The body -/

/-- The declaration that is reached at an entry of a log, if it stands directly in the body of the call
from outside, with the store that it finds. -/
def Entry.reached? : Entry → Option (Definition × Store)
  | .job _ (.execAll (.function f :: _) env) s => if env = callEnv then some (f, s) else none
  | _ => none

/-- The declarations that are reached, with the stores that they find. -/
def reachedDeclarations (log : List Entry) : List (Definition × Store) :=
  log.filterMap Entry.reached?

/-- **Hoisting does not show in a run**: no two functions are compared, and where a declaration is
reached, its name is bound to a function of it. -/
structure Undisturbed (log : List Entry) : Prop where
  uncompared : Uncompared log
  declares : ∀ p ∈ reachedDeclarations log, p.2.Declares p.1

theorem Undisturbed.subset {log log' : List Entry} (h : Undisturbed log) (hl : log' ⊆ log) :
    Undisturbed log' where
  uncompared e he := h.uncompared e (hl he)
  declares p hp := by
    obtain ⟨e, he, hr⟩ := List.mem_filterMap.mp hp
    exact h.declares p (List.mem_filterMap.mpr ⟨e, hl he, hr⟩)

section
variable {n : Nat} {first : Stmt} {rest : List Stmt} {env : Env} {s t : Store}

/-- What is done for the first statement of several is in their log. -/
theorem log_first_subset :
    Job.log n (.exec first env) s ⊆ Job.log (n + 1) (.execAll (first :: rest) env) s :=
  List.subset_cons_of_subset _ (List.subset_append_left _ _)

/-- What is done for the other statements is too, if they are reached. -/
theorem log_rest_subset (h : exec n first env s = .ok .normal t) :
    Job.log n (.execAll rest env) t ⊆ Job.log (n + 1) (.execAll (first :: rest) env) s := by
  refine List.subset_cons_of_subset _ (List.subset_append_of_subset_right _ ?_)
  rw [after_ok (m := (Job.exec first env).run n) h]
  exact List.subset_append_left _ _

end

/-- A declaration, where it stands. -/
theorem exec_function (n : Nat) (f : Definition) (env : Env) {s t : Store}
    (h : declareFunction f env s = .ok () t) :
    exec (n + 1) (.function f) env s = .ok .normal t := by
  rw [exec, run_bind, h]
  rfl

/-- A declaration that a body begins with, if hoisting does not show. -/
theorem Undisturbed.declares_first {n : Nat} {f : Definition} {rest : List Stmt} {s : Store}
    (h : Undisturbed (Job.log (n + 1) (.execAll (.function f :: rest) callEnv) s)) :
    s.Declares f := by
  have reached : Entry.reached? (.job (n + 1) (.execAll (.function f :: rest) callEnv) s) =
      some (f, s) := by
    rw [Entry.reached?, if_pos rfl]
  exact h.declares (f, s) (List.mem_filterMap.mpr ⟨_, List.mem_cons_self, reached⟩)

/-- A declaration on one side only, where its name is bound to a function of it. -/
theorem exec_function_alike (n : Nat) {f : Definition} {s s' : Store} (h : s.Declares f)
    (l : s.Alike s') :
    RunsAlike (fun c _ _ _ => c = .normal) (exec n (.function f) callEnv) (pure ()) s s' := by
  cases n with
  | zero => exact .exhausted _ _
  | succ n =>
      obtain ⟨t, hrun, ht⟩ := declareFunction_declared f h.opened h.mutable
      unfold RunsAlike
      rw [exec_function n f callEnv hrun]
      exact .ok ⟨ht.redeclared h l, ht.functions, .refl _⟩ rfl

/-- **A body runs alike with its declarations and without them**, if these declare nothing new. -/
theorem execAll_alike : ∀ {n m : Nat} {body : List Stmt} {s s' : Store}, n ≤ m → s.Alike s' →
    Undisturbed (Job.log n (.execAll body callEnv) s) →
      RunsAlike .completion (execAll n body callEnv) (execAll m (otherStatements body) callEnv) s s'
  | 0, _, _, _, _, _, _, _ => .exhausted _ _
  | n + 1, 0, _, _, _, hnm, _, _ => absurd hnm (Nat.not_succ_le_zero n)
  | n + 1, m + 1, [], s, s', _, l, _ => alike_pure l .normal
  | n + 1, m + 1, first :: rest, s, s', hnm, l, hlog => by
      cases hd : first.declared? with
      | some f =>
          -- only the first run takes a step here: it has fewer left, and the second has as many
          obtain rfl := eq_function_of_declared? hd
          have skips : otherStatements (.function f :: rest) = otherStatements rest := rfl
          have head := exec_function_alike n hlog.declares_first l
          rw [execAll, skips]
          have run : execAll (m + 1) (otherStatements rest) callEnv =
              (pure () : Run Unit) >>= fun _ => execAll (m + 1) (otherStatements rest) callEnv := rfl
          rw [run]
          refine head.bind fun c _ t t' hexec later hc => ?_
          subst hc
          exact execAll_alike (Nat.le_of_succ_le hnm) later.alike
            (hlog.subset (log_rest_subset hexec))
      | none =>
          have keeps : otherStatements (first :: rest) = first :: otherStatements rest :=
            List.filter_cons_of_pos (by rw [hd]; rfl)
          have head := JobAlike.run (Nat.le_of_succ_le_succ hnm) (.exec first callEnv) l
            (hlog.subset log_first_subset).uncompared
          rw [keeps, execAll, execAll]
          refine head.bind fun c c' t t' hexec later hc => ?_
          cases hc with
          | normal =>
              exact execAll_alike (Nat.le_of_succ_le_succ hnm) later.alike
                (hlog.subset (log_rest_subset hexec))
          | «break» => exact alike_pure later.alike .break
          | «continue» => exact alike_pure later.alike .continue
          | «return» hv => exact alike_pure later.alike (.return hv)

/-- Declarations in front are carried out one after the other. -/
theorem execAll_declarations (m : Nat) (rest : List Stmt) (env : Env) :
    ∀ {fs : List Definition} {s t : Store}, declareAll env fs s = .ok () t →
      execAll (m + 1 + fs.length) (fs.map .function ++ rest) env s = execAll (m + 1) rest env t
  | [], s, t, h => by
      cases h
      rfl
  | f :: fs, s, t, h => by
      have split : declareAll env (f :: fs) s =
          (declareFunction f env >>= fun _ => declareAll env fs) s := rfl
      rw [split, run_bind] at h
      cases hf : declareFunction f env s with
      | error e u =>
          rw [hf] at h
          cases h
      | ok _ u =>
          rw [hf] at h
          rw [List.map_cons, List.cons_append, List.length_cons, ← Nat.add_assoc, execAll, run_bind,
            Nat.add_right_comm, exec_function _ f env hf]
          rw [Nat.add_right_comm]
          exact execAll_declarations m rest env h

/-! ### The call -/

/-- **Parameters of a call from outside are bound**: its scope is the innermost one, nothing in it is
constant, and all functions that the store refers to are there. -/
structure Store.Called (s : Store) : Prop where
  scopes : ∃ c, s.scopes = callScopes c ∧ ∀ name v, c.get? name = some v → v.mutable = true
  alike : s.Alike s

/-- Values that refer to functions that are there. -/
abbrev Store.Knows (s : Store) (values : List Value) : Prop :=
  ValuesAlike s.functions s.functions values values

theorem Store.Called.assignable {s : Store} (h : s.Called) : s.Assignable := by
  obtain ⟨c, hs, hc⟩ := h.scopes
  refine ⟨?_, fun name v hv => ?_⟩
  · rw [hs]
    exact Nat.lt_succ_self 1
  · rw [Store.scope_eq, hs] at hv
    exact hc name v hv

theorem called_define {s : Store} (h : s.Called) (name : String) {v : Value}
    (hv : Likeness.value v v s s) :
    ∃ t, define callEnv name v true s = .ok () t ∧ t.Called ∧ t.functions = s.functions := by
  obtain ⟨c, hs, hc⟩ := h.scopes
  refine ⟨_, define_run .., ⟨⟨c.put name ⟨v, true⟩, ?_, fun word w hw => ?_⟩, ?_⟩, rfl⟩
  · rw [Store.scopes_withScopes, hs]
    exact put_callScopes ..
  · rw [Scope.get?_put] at hw
    split at hw
    · cases hw
      rfl
    · exact hc word w hw
  · exact (h.alike.later_withScopes (h.alike.scopes.put _ name ⟨hv, rfl⟩)).alike

theorem called_bindParameters : ∀ (names : List String) {s : Store} {arguments : List Value},
    s.Called → s.Knows arguments → ∃ left t,
      bindParameters callEnv names arguments s = .ok left t ∧ t.Called ∧ t.Knows left
  | [], s, arguments, h, ha => ⟨arguments, s, rfl, h, ha⟩
  | name :: names, s, arguments, h, ha => by
      obtain ⟨t, hdefine, ht, hfunctions⟩ := called_define h name (ha.headD .undefined)
      have tail : t.Knows arguments.tail := by
        rw [Store.Knows, hfunctions]
        exact ha.tail
      obtain ⟨left, u, hrest, hu⟩ := called_bindParameters names ht tail
      refine ⟨left, u, ?_, hu⟩
      rw [bindParameters, run_bind, hdefine]
      exact hrest

theorem called_bindRest (name : Option String) {s : Store} {left : List Value} (h : s.Called)
    (hl : s.Knows left) : ∃ t, Discipline.bindRest callEnv name left s = .ok () t ∧ t.Called := by
  cases name with
  | none => exact ⟨s, rfl, h⟩
  | some name =>
      have made : newArray left.toArray s =
        .ok (.array s.arrays.size) { s with arrays := s.arrays.push left.toArray } := rfl
      have alike : RunsAlike .value (newArray left.toArray) (newArray left.toArray) s s :=
        alike_newArray h.alike hl
      unfold RunsAlike at alike
      rw [made] at alike
      obtain ⟨later, hv⟩ := alike
      have called : Store.Called { s with arrays := s.arrays.push left.toArray } :=
        ⟨h.scopes, later.alike⟩
      obtain ⟨t, hdefine, ht, -⟩ := called_define called name hv
      refine ⟨t, ?_, ht⟩
      rw [Discipline.bindRest, run_bind, made]
      exact hdefine

/-- What a call from outside binds before it hoists, whatever its body is. -/
theorem called_enter (name : Option String) (parameters : List String) (rest : Option String)
    {s : Store} (hs : s.scopes = #[globalScope]) (l : s.Alike s) {arguments : List Value}
    (ha : s.Knows arguments) : ∃ t, t.Called ∧ ∀ body,
      enter ⟨name, parameters, rest, body⟩ globalEnv arguments s =
        (Discipline.hoist callEnv body >>= fun _ => pure callEnv) t := by
  have opened : newScope true globalEnv s = .ok callEnv (s.withScopes (callScopes [])) := by
    rw [newScope_run, hs]
    rfl
  have called : (s.withScopes (callScopes [])).Called := by
    refine ⟨⟨[], rfl, fun name v hv => by cases hv⟩, (l.later_withScopes ?_).alike⟩
    have scopes := l.scopes.opened
    rw [hs] at scopes
    exact scopes
  obtain ⟨left, t, hbind, ht, hleft⟩ := called_bindParameters parameters called ha
  obtain ⟨u, hrest, hu⟩ := called_bindRest rest ht hleft
  refine ⟨u, hu, fun body => ?_⟩
  have binds : enter ⟨name, parameters, rest, body⟩ globalEnv arguments =
      newScope true globalEnv >>= fun inner => bindParameters inner parameters arguments >>=
        fun left => Discipline.bindRest inner rest left >>=
          fun _ => Discipline.hoist inner body >>= fun _ => pure inner := Discipline.enter_eq ..
  rw [binds, run_bind, opened]
  dsimp only
  rw [run_bind, hbind]
  dsimp only
  rw [run_bind, hrest]

theorem scope_callScopes_of_ne (c c' : Scope) {r : Ref} (h : r ≠ callScope) :
    (callScopes c).scope r = (callScopes c').scope r := by
  match r with
  | 0 => rfl
  | 1 => exact absurd rfl h
  | r + 2 => rfl

/-- Names that are declared for the whole call, in whichever order. -/
theorem declared_alike {s : Store} {c : Scope} (h : s.Alike s) (hs : s.scopes = callScopes c)
    {names names' : List String} (same : ∀ name, name ∈ names ↔ name ∈ names') :
    (s.withScopes (callScopes (c.declared names))).Alike
      (s.withScopes (callScopes (c.declared names'))) := by
  have bound (r : Ref) (name : String) : Option.Rel (Variable.Alike s.functions s.functions)
      (((callScopes (c.declared names)).scope r).get? name)
      (((callScopes (c.declared names')).scope r).get? name) := by
    have was := h.scopes.get? r name
    rw [hs] at was
    by_cases hr : r = callScope
    · rw [hr, scope_callScopes] at was
      rw [hr, scope_callScopes, scope_callScopes, Scope.get?_declared, Scope.get?_declared]
      simp only [same]
      generalize c.get? name = v at was ⊢
      cases was with
      | some hv => exact .some hv
      | none =>
          rw [Option.none_or]
          split
          · exact .some ⟨.undefined, rfl⟩
          · exact .none
    · rw [scope_callScopes_of_ne (c.declared names) c hr,
        scope_callScopes_of_ne (c.declared names') c hr]
      exact was
  have scopes : ScopesAlike s.functions s.functions (callScopes (c.declared names))
      (callScopes (c.declared names')) := ⟨rfl, bound⟩
  exact (h.later_withScopes scopes).alike

theorem Store.Called.declared {s : Store} {c : Scope} (h : s.Alike s) (hs : s.scopes = callScopes c)
    (hc : ∀ name v, c.get? name = some v → v.mutable = true) (names : List String) :
    Store.Called (s.withScopes (callScopes (c.declared names))) := by
  refine ⟨⟨_, rfl, fun name v hv => ?_⟩, declared_alike h hs fun _ => Iff.rfl⟩
  rw [Scope.get?_declared] at hv
  cases hw : c.get? name with
  | some w =>
      rw [hw] at hv
      cases hv
      exact hc name v hw
  | none =>
      rw [hw, Option.none_or] at hv
      split at hv
      · cases hv
        rfl
      · cases hv

/-- **Declarations that are moved to the front leave stores that are alike**, when they are carried out
once more. -/
theorem hoist_alike {s : Store} (h : s.Called) (body : List Stmt) : ∃ t t' u,
    Discipline.hoist callEnv body s = .ok () t ∧
      Discipline.hoist callEnv (declarationsFirst body) s = .ok () t' ∧
      declareAll callEnv (declaredFunctions body) t'.deeper = .ok () u.deeper ∧ t.Alike u := by
  obtain ⟨c, hs, hc⟩ := h.scopes
  have hoisted := fun body => (Store.Called.declared h.alike hs hc (hoistedNames body)).assignable
  obtain ⟨t, hrun, ht⟩ := declareAll_run (declaredFunctions body) (hoisted body)
  obtain ⟨t', hrun', ht'⟩ := declareAll_run (declaredFunctions body)
    (hoisted (declarationsFirst body))
  obtain ⟨u, hfront, hu⟩ := declareAll_run (declaredFunctions body)
    (ht'.assignable (hoisted (declarationsFirst body))).deeper
  have depth : u.depth = t'.depth + 1 := hu.depth
  have inside : u.shallower.deeper = u := by
    rw [Store.shallower, Store.deeper, depth, Nat.add_sub_cancel, ← depth]
  refine ⟨t, t', u.shallower, ?_, ?_, inside ▸ hfront, ?_⟩
  · rw [Discipline.hoist, run_bind, declareVars_call hs, declareFunctions_eq]
    exact hrun
  · rw [Discipline.hoist, run_bind, declareVars_call hs, declareFunctions_eq,
      declaredFunctions_declarationsFirst]
    exact hrun'
  · have same (name : String) : name ∈ hoistedNames body ↔
        name ∈ hoistedNames (declarationsFirst body) := mem_hoistedNames_declarationsFirst.symm
    have names := declared_alike h.alike hs same
    have alike := ht.deeper.alike (ht'.deeper.trans hu) names.deeper
      fun name => (lastDeclared_twice _ name).symm
    exact { alike with depth := congrArg (· - 1) alike.depth }

/-- What is done for the body of a function is in the log of its call. -/
theorem log_body_subset {n : Nat} {d : Definition} {env inner : Env} {arguments : List Value}
    {s t : Store} (hdepth : s.depth < maxCallDepth) (h : enter d env arguments s = .ok inner t) :
    Job.log n (.execAll d.body inner) t.deeper ⊆ Job.log (n + 1) (.invoke d env arguments) s := by
  have entered : (Course.enter d env arguments).run (Job.run n) s = .ok inner t := by
    rw [Course.run_enter, h]
  have course : (Course.ofJob (.invoke d env arguments)).log (Job.run n) (Job.log n) s =
      .op .look s :: (if maxCallDepth ≤ s.depth then Course.fail .callDepth else
        Course.enter d env arguments >>= fun inner =>
          .inCall d.body inner Course.returned).log (Job.run n) (Job.log n) s := rfl
  rw [Job.log, course, if_neg (Nat.not_le_of_lt hdepth), Course.log_bind, after_ok entered]
  refine List.subset_cons_of_subset _ (List.subset_cons_of_subset _ ?_)
  exact List.subset_append_of_subset_right _ (List.subset_append_left _ _)

/-- What is handed back of bodies that end alike. -/
theorem alike_handedBack {m m' : Run Completion} {s s' : Store}
    (h : RunsAlike .completion m m' s s') :
    RunsAlike .value
      (m >>= fun c => match c with | .return v => pure v | _ => pure .undefined)
      (m' >>= fun c => match c with | .return v => pure v | _ => pure .undefined) s s' := by
  refine h.bind fun c c' t t' _ later hc => ?_
  cases hc with
  | «return» hv => exact alike_pure later.alike hv
  | _ => exact alike_pure later.alike .undefined

/-- **A call ends alike with the declarations of its body in front.** -/
theorem invoke_alike (d : Definition) {n m : Nat} {s : Store} (hs : s.scopes = #[globalScope])
    (hdepth : s.depth < maxCallDepth) (l : s.Alike s) {arguments : List Value}
    (ha : s.Knows arguments) (hnm : n ≤ m + 1)
    (hlog : Undisturbed (Job.log (n + 1) (.invoke d globalEnv arguments) s)) :
    ∃ t u, EndsAlike .value t u (invoke (n + 1) d globalEnv arguments s)
      (invoke (m + 1 + (declaredFunctions d.body).length + 1) d.declarationsFirst globalEnv
        arguments s) := by
  obtain ⟨name, parameters, rest, body⟩ := d
  obtain ⟨called, hcalled, henter⟩ := called_enter name parameters rest hs l ha
  obtain ⟨t, t', u, ht, ht', hfront, alike⟩ := hoist_alike hcalled body
  have entered : enter ⟨name, parameters, rest, body⟩ globalEnv arguments s = .ok callEnv t := by
    rw [henter, run_bind, ht]
    rfl
  have runs (k : Nat) (body : List Stmt) :
      invoke (k + 1) ⟨name, parameters, rest, body⟩ globalEnv arguments s =
        runBody k body callEnv called := by
    rw [invoke, run_get_bind, if_neg (Nat.not_le_of_lt hdepth), run_bind, henter, runBody]
    simp only [run_bind]
    cases Discipline.hoist callEnv body called <;> rfl
  -- the given body, and its statements without the declarations, from stores that are alike
  have bodies := alike_handedBack (alike_asCall (execAll_alike hnm alike.deeper
    (hlog.subset (log_body_subset hdepth entered))))
  -- the declarations in front take their steps and leave the statements without them
  have front : asCall (execAll (m + 1 + (declaredFunctions body).length) (declarationsFirst body)
      callEnv) t' = asCall (execAll (m + 1) (otherStatements body) callEnv) u := by
    rw [asCall_run, asCall_run, declarationsFirst, execAll_declarations m _ _ hfront]
  have left := runs n body
  have right := runs (m + 1 + (declaredFunctions body).length) (declarationsFirst body)
  rw [runBody, run_bind, ht] at left
  rw [runBody, run_bind, ht'] at right
  dsimp only at left right
  rw [run_bind, front, ← run_bind] at right
  refine ⟨t, u, ?_⟩
  show EndsAlike .value t u _ (invoke (m + 1 + (declaredFunctions body).length + 1)
    ⟨name, parameters, rest, declarationsFirst body⟩ _ _ _)
  rw [left, right]
  exact bodies

/-! ### Calls from outside -/

theorem Value.Given.alike {v : Value} {s : Store} (hv : v.Given)
    (hs : s.functions = Store.initial.functions) : Likeness.value v v s s := by
  cases v with
  | function f =>
      have hf : f < s.functions.size := by
        rw [hs]
        simpa [Store.initial] using hv f rfl
      exact .function (Array.getElem?_eq_getElem hf) (Array.getElem?_eq_getElem hf)
  | _ => exact .same rfl

theorem given_of_globalScope {name : String} {v : Variable} (h : globalScope.get? name = some v) :
    v.value.Given := by
  have given : ∀ p ∈ globalScope, p.2.value.Given := by
    simp only [globalScope, List.forall_mem_cons]
    refine ⟨?_, ?_, ?_, ?_, ?_, ?_, ?_, fun _ hp => by cases hp⟩ <;>
      (intro f hf; cases hf; try decide)
  obtain ⟨before, after, hsplit, -⟩ := List.lookup_eq_some_iff.mp h
  exact given (name, v) (by simp [hsplit])

/-- All functions that a store with the data of a call refers to are there. -/
theorem Store.Given.alike {s : Store} (g : s.Given) (hf : s.functions = Store.initial.functions)
    (hs : s.scopes = #[globalScope]) : s.Alike s where
  arrays := rfl
  items a := List.forall₂_same.mpr fun v hv => (g.items a v (Array.mem_toList_iff.mp hv)).alike hf
  objects := rfl
  fields o := List.forall₂_same.mpr fun p hp => ⟨rfl, (g.fields o p hp).alike hf⟩
  scopes := ⟨rfl, fun r name => by
    cases hv : (Scopes.scope s.scopes r).get? name with
    | none => exact .none
    | some v =>
        rw [hs] at hv
        match r, hv with
        | 0, hv => exact .some ⟨(given_of_globalScope hv).alike hf, rfl⟩
        | r + 1, hv => cases hv⟩
  depth := rfl

/-- A call from outside, once its data is made. -/
theorem apply_of_import {data : Json.Document} {v : Value} {s : Store}
    (h : importDocument data Store.initial = .ok v s) (d : Definition) (steps : Nat) :
    d.apply steps data = resultText (invoke steps d globalEnv [v, helper] s) := by
  rw [Definition.apply, callWith, run_bind, h]
  dsimp only
  rw [run_bind]
  cases invoke steps d globalEnv [v, helper] s <;> rfl

/-- Results that are alike have the same text. -/
theorem resultText_alike {s s' : Store} {r r' : Outcome Value} (h : EndsAlike .value s s' r r')
    (hends : resultText r ≠ .error .exhausted) : resultText r' = resultText r := by
  cases h with
  | ok later hv => exact congrArg Except.ok (later.alike.text hv).symm
  | fault f t t' => rfl
  | exhausted t r' => exact absurd rfl hends

/-- **Hoisting.**  The declarations that stand directly in the body of a function can be moved to its
front: if no two functions are compared in a call that ends, and where such a declaration is reached,
its name is bound to a function of it, the call has the same end then.  Where it is reached, it binds
its name to a new function, and does nothing else. -/
theorem apply_declarationsFirst (d : Definition) (steps : Nat) (data : Json.Document)
    (hlog : Undisturbed (d.log steps data)) :
    (d.apply steps data ≠ .error .exhausted →
      ∀ n, steps + (declaredFunctions d.body).length + 1 ≤ n →
        d.declarationsFirst.apply n data = d.apply steps data) ∧
    ∀ p ∈ reachedDeclarations (d.log steps data), ∀ n,
      ∃ t, exec (n + 1) (.function p.1) callEnv p.2 = .ok .normal t ∧
        Store.Declared [p.1] p.2 t := by
  refine ⟨fun hends n hn => ?_, fun p hp n => ?_⟩
  · cases hdata : importDocument data Store.initial with
    | error e s => simp only [Definition.apply, callWith, run_bind, hdata]
    | ok v s =>
        obtain ⟨hscopes, hfunctions, hdepth⟩ := importDocument_initial hdata
        have given := (onData_importDocument data).given Store.initial given_initial
        rw [hdata] at given
        have l := given.alike hfunctions hscopes
        have hv := ((onData_importDocument data).result _ v s given_initial hdata).alike hfunctions
        have knows : s.Knows [v, helper] := .cons hv (.cons (.same rfl) .nil)
        rw [apply_of_import hdata] at hends ⊢
        rw [apply_of_import hdata]
        rw [Definition.log, after_ok hdata] at hlog
        cases steps with
        | zero => exact absurd rfl hends
        | succ steps =>
            obtain ⟨m, rfl⟩ : ∃ m, n = m + 1 + (declaredFunctions d.body).length + 1 :=
              ⟨n - (declaredFunctions d.body).length - 2, by omega⟩
            obtain ⟨t, u, ends⟩ := invoke_alike d hscopes (by rw [hdepth]; decide) l knows
              (m := m) (by omega) hlog
            exact resultText_alike ends hends
  · obtain ⟨t, hrun, ht⟩ := declareFunction_declared p.1 (hlog.declares p hp).opened
      (hlog.declares p hp).mutable
    exact ⟨t, exec_function n p.1 callEnv hrun, ht⟩

/-- A function that is declared after a variable that it reads. -/
def readsEarlier : Definition :=
  ⟨some "f", [], none, [.return (some (.name "x"))]⟩

/-- The body `var x = 'a'; function f() { return x; } return f();`. -/
def declaresLater : Definition :=
  ⟨none, [], none,
    [.declare .var [("x", some (.string "a"))], .function readsEarlier,
      .return (some (.call (.name "f") []))]⟩

theorem undisturbed_declaresLater : Undisturbed (declaresLater.log 12 .null) where
  uncompared := by
    have none : ((declaresLater.log 12 .null).all fun e => !e.comparesFunctions) = true := by
      decide +kernel
    simpa [Uncompared] using none
  declares := by
    -- the only declaration that is reached is the first one
    have one : (reachedDeclarations (declaresLater.log 12 .null)).length = 1 := by decide +kernel
    have first : ∃ s, (reachedDeclarations (declaresLater.log 12 .null)).head? =
        some (readsEarlier, s) ∧ s.Declares readsEarlier := ⟨_, rfl, _, rfl, rfl⟩
    obtain ⟨s, hfirst, declares⟩ := first
    obtain ⟨p, hp⟩ := List.length_eq_one_iff.mp one
    rw [hp] at hfirst ⊢
    cases hfirst
    exact List.forall_mem_singleton.mpr declares

theorem apply_declarationsFirst_declaresLater :
    Undisturbed (declaresLater.log 12 .null) ∧ declaresLater.apply 12 .null = .ok "a" ∧
      declaresLater.declarationsFirst.apply 14 .null = .ok "a" := by
  have ends : declaresLater.apply 12 .null = .ok "a" := by decide +kernel
  have moved := (apply_declarationsFirst declaresLater 12 .null undisturbed_declaresLater).1
    (by rw [ends]; exact fun h => by cases h) 14 (by decide)
  exact ⟨undisturbed_declaresLater, ends, moved.trans ends⟩

/-- Where a name is assigned before its declaration is reached, the assignment is lost: the body
`f = 'a'; function f() {} return f;`. -/
example :
    let body : List Stmt := [.expr (.assign none (.name "f") (.string "a")),
      .function ⟨some "f", [], none, []⟩, .return (some (.name "f"))]
    Definition.apply ⟨none, [], none, body⟩ 12 .null = .ok "function f() { [code] }" ∧
      Definition.apply ⟨none, [], none, declarationsFirst body⟩ 12 .null = .ok "a" := by
  decide +kernel

end Stencil.Script
