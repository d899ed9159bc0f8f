import Stencil.Proofs.Compile.Named
import Stencil.Proofs.Compile.Prelude
import Stencil.Proofs.Runs.Appended

/-!
# Compile — output is not lost

The output of a template gathers in one variable, which the first declaration of its body sets to
the empty string, and which pieces and the function that writes add to.  As long as the script does
not rewrite it, the output of a call that ends by returning it is what its additions have written,
each once and in the order in which they were done.  An addition that is done while another one
computes its right side is the exception: the other one has read the output before.

* `trace_default`, `trace_members`, `trace_prelude`: what comes before the template's own statements
  adds nothing.
* `outputs_prelude`, `outputs_bindings`: bodies, from where their parameters are bound.
* `trace_writer`: what the function that writes adds.
* `render_written`: the output of a template.
-/

namespace Stencil
namespace Script
open Discipline

/-! ### Nothing is added -/

/-- Expressions that add nothing, whatever they are computed with. -/
def Expr.Quiet (e : Expr) : Prop :=
  ∀ name n env s, Trace.eval name n e env s = []

theorem quiet_name (word : String) : (Expr.name word).Quiet := by
  intro name n env s
  cases n <;> simp [Trace.eval]

theorem quiet_string (t : String) : (Expr.string t).Quiet := by
  intro name n env s
  cases n <;> simp [Trace.eval]

theorem quiet_function (d : Definition) : (Expr.function d).Quiet := by
  intro name n env s
  cases n <;> simp [Trace.eval]

theorem quiet_member {object : Expr} (h : object.Quiet) (key : String) :
    (Expr.member object key).Quiet := by
  intro name n env s
  cases n with
  | zero => rw [Trace.eval]
  | succ n => rw [Trace.eval, h]

theorem quiet_object : (Expr.object []).Quiet := by
  intro name n env s
  cases n with
  | zero => rw [Trace.eval]
  | succ n => cases n <;> simp [Trace.eval, Trace.evalFields]

theorem quiet_logical {left right : Expr} (hl : left.Quiet) (hr : right.Quiet) (op : LogicalOp) :
    (Expr.logical op left right).Quiet := by
  intro name n env s
  cases n with
  | zero => rw [Trace.eval]
  | succ n => simp [Trace.eval, hl _ _ _ _, hr _ _ _ _]

theorem quiet_assignName {value : Expr} (h : value.Quiet) (word : String) :
    (Expr.assign none (.name word) value).Quiet := by
  intro name n env s
  have place : ∀ n, Trace.evalPlace name n (.name word) env s = [] := fun n => by
    cases n <;> simp [Trace.evalPlace]
  cases n with
  | zero => rw [Trace.eval]
  | succ n => simp [Trace.eval, place, h _ _ _ _]

section
variable {name : String} {env : Env} {s : Store}

/-- A declaration adds nothing if its values do not. -/
theorem trace_bindings {kind : DeclKind} : ∀ {bindings : List (String × Option Expr)} {s : Store},
    (∀ b ∈ bindings, ∀ e, b.2 = some e → e.Quiet) →
      ∀ n, Trace.execBindings name n kind bindings env s = []
  | _, _, _, 0 => by rw [Trace.execBindings]
  | [], _, _, _ + 1 => by rw [Trace.execBindings]
  | (own, none) :: rest, s, h, n + 1 => by
      have others : ∀ t, Trace.execBindings name n kind rest env t = [] := fun t =>
        trace_bindings (fun b hb => h b (List.mem_cons_of_mem _ hb)) n
      rw [Trace.execBindings]
      simp only [others, after_nil]
  | (own, some e) :: rest, s, h, n + 1 => by
      have others : ∀ t, Trace.execBindings name n kind rest env t = [] := fun t =>
        trace_bindings (fun b hb => h b (List.mem_cons_of_mem _ hb)) n
      have value : e.Quiet := h _ List.mem_cons_self e rfl
      rw [Trace.execBindings, value]
      simp only [others, after_nil, List.append_nil]

/-- **What comes before a template's own statements adds nothing.** -/
theorem trace_default (p : String) (n : Nat) :
    Trace.exec name n (Template.defaultStatement p) env s = [] := by
  have quiet := quiet_assignName (quiet_logical (quiet_name p) quiet_object .or) p
  cases n with
  | zero => rw [Trace.exec]
  | succ n => rw [Template.defaultStatement, Trace.exec, quiet, List.map_nil]

theorem trace_members (p : String) (names : List String) (n : Nat) :
    Trace.exec name n (.declare .var (names.map (Template.memberBinding p))) env s = [] := by
  cases n with
  | zero => rw [Trace.exec]
  | succ n =>
      rw [Trace.exec, trace_bindings, List.map_nil]
      intro b hb e he
      obtain ⟨w, -, rfl⟩ := List.mem_map.mp hb
      cases he
      exact quiet_member (quiet_name p) w

theorem trace_prelude (n : Nat) :
    Trace.exec name n Template.preludeStatement env s = [] := by
  cases n with
  | zero => rw [Trace.exec]
  | succ n =>
      rw [Template.preludeStatement, Trace.exec, trace_bindings, List.map_nil]
      intro b hb e he
      simp only [List.mem_cons, List.not_mem_nil, or_false] at hb
      rcases hb with rfl | rfl | rfl <;> cases he
      · exact quiet_string ""
      · exact quiet_function _

end

/-! ### Bodies -/

/-- The variable that the output of a template gathers in. -/
def Sink.output : Sink := ⟨"__p", Scopes.callScope⟩

namespace Sink

/-- **Runs that leave all that they add, and nothing else.** -/
def Outputs (K : Sink) (m : Run Completion) (s : Store) (events : List Event) : Prop :=
  ∀ c t, m s = .ok c t → K.Shows t (written (appended events)) ∧ K.LeftBy events c t

variable {K : Sink} {s : Store} {env : Env}

/-- Before what it is that adds, statements may do what they like, if it adds nothing. -/
theorem Outputs.cons {first : Stmt} {rest : List Stmt} {n : Nat}
    (hquiet : Trace.exec K.name n first env s = [])
    (hfirst : ∀ c t, exec n first env s = .ok c t → c = .normal ∧
      K.Outputs (execAll n rest env) t (Trace.execAll K.name n rest env t)) :
    K.Outputs (execAll (n + 1) (first :: rest) env) s
      (Trace.execAll K.name (n + 1) (first :: rest) env s) := by
  intro c u e
  rw [execAll] at e
  obtain ⟨c', t, h, e⟩ := bind_eq_ok e
  obtain ⟨rfl, houtputs⟩ := hfirst c' t h
  rw [Trace.execAll, hquiet, List.nil_append, after_ok h]
  exact houtputs c u e

theorem output_inside : output.Inside callEnv :=
  ⟨_, List.mem_cons_self, rfl⟩

theorem fair_declareVar {n : String} {u : Unit} {t : Store} (g : output.Fair s)
    (h : declareVar callEnv n s = .ok u t) : output.Fair t := by
  rw [declareVar_run] at h
  split at h <;> cases h
  · exact g
  · exact g.put (.inr rfl) _

theorem fair_declareVars : ∀ {names : List String} {s t : Store} {u : Unit}, output.Fair s →
    declareVars callEnv names s = .ok u t → output.Fair t
  | [], _, _, _, g, h => by
      cases h
      exact g
  | _ :: _, _, _, _, g, h => by
      obtain ⟨_, _, hfirst, hrest⟩ := bind_eq_ok h
      exact fair_declareVars (fair_declareVar g hfirst) hrest

/-- The first declaration sets the output to the empty string. -/
theorem exec_prelude (g : output.Fair s) {n : Nat} {c : Completion} {t : Store}
    (h : exec n Template.preludeStatement callEnv s = .ok c t) :
    c = .normal ∧ output.Fair t ∧ output.Shows t "" := by
  have inside := output_inside
  -- the three bindings one by one: `__t`, the output, which is set to the empty string, and `print`
  obtain _ | n := n
  · rw [exec] at h; cases h
  rw [Template.preludeStatement, exec] at h
  obtain ⟨_, u, hbindings, hc⟩ := bind_eq_ok h
  cases hc
  obtain _ | n := n
  · rw [execBindings] at hbindings; cases hbindings
  rw [execBindings] at hbindings
  obtain ⟨_, t₁, hvalue, hbindings⟩ := bind_eq_ok hbindings
  obtain ⟨g₁, -, -⟩ := adds_bindDeclared g (by decide) .var none _ _ hvalue
  obtain _ | n := n
  · rw [execBindings] at hbindings; cases hbindings
  rw [execBindings] at hbindings
  obtain ⟨v, t₂, hstring, hbindings⟩ := bind_eq_ok hbindings
  obtain _ | n := n
  · rw [eval] at hstring; cases hstring
  rw [eval] at hstring
  cases hstring
  obtain ⟨_, t₃, houtput, hbindings⟩ := bind_eq_ok hbindings
  obtain ⟨_, t₄, hdeclare, hassign⟩ := bind_eq_ok houtput
  obtain ⟨g₃, hshows⟩ := (fair_declareVar g₁ hdeclare).assignName_eq_ok inside hassign
  have writes := (appends (n + 1)).execBindings .var [("print", some (.function Template.writer))]
    callEnv g₃ inside (by decide)
  obtain ⟨g₄, sh, -⟩ := writes _ _ hbindings
  have quiet : Trace.execBindings output.name (n + 1) .var
      [("print", some (.function Template.writer))] callEnv t₃ = [] :=
    trace_bindings (fun b hb e he => by
      rw [List.mem_singleton] at hb
      subst hb
      cases he
      exact quiet_function _) _
  have shows := sh "" (hshows "" rfl)
  rw [quiet] at shows
  exact ⟨rfl, g₄, shows⟩

/-- Bodies that begin with their declaration. -/
theorem outputs_prelude {rest : List Stmt} (hrest : output.name ∉ rewritesBody rest) :
    ∀ {s : Store} (n : Nat), output.Fair s →
      output.Outputs (execAll n (Template.preludeStatement :: rest) callEnv) s
        (Trace.execAll output.name n (Template.preludeStatement :: rest) callEnv s)
  | _, 0, _ => by
      intro c t h
      rw [execAll] at h
      cases h
  | _, n + 1, g => by
      refine Outputs.cons (trace_prelude n) fun c t h => ?_
      obtain ⟨rfl, g', hempty⟩ := exec_prelude g h
      refine ⟨rfl, fun c u e => ?_⟩
      obtain ⟨-, sh, left⟩ := (appends n).execAll rest callEnv g' output_inside hrest c u e
      have shows := sh "" hempty
      rw [String.empty_append] at shows
      exact ⟨shows, left⟩

/-- What stands before a body that adds, and is not left itself. -/
theorem Outputs.next {first : Stmt} {rest : List Stmt} {n : Nat} (g : output.Fair s)
    (hrewrites : output.name ∉ first.rewrites)
    (hquiet : Trace.exec output.name n first callEnv s = [])
    (hnormal : ∀ c t, exec n first callEnv s = .ok c t → c = .normal)
    (hrest : ∀ {t : Store}, output.Fair t → output.Outputs (execAll n rest callEnv) t
      (Trace.execAll output.name n rest callEnv t)) :
    output.Outputs (execAll (n + 1) (first :: rest) callEnv) s
      (Trace.execAll output.name (n + 1) (first :: rest) callEnv s) := by
  refine .cons hquiet fun c t h => ⟨hnormal c t h, hrest ?_⟩
  exact ((appends n).exec first callEnv g output_inside hrewrites c t h).1

theorem exec_expr_normal {e : Expr} {n : Nat} {c : Completion} {t : Store}
    (h : exec n (.expr e) env s = .ok c t) : c = .normal := by
  obtain _ | n := n <;> rw [exec] at h
  · cases h
  · obtain ⟨_, _, _, hc⟩ := bind_eq_ok h
    cases hc
    rfl

theorem exec_declare_normal {kind : DeclKind} {bindings : List (String × Option Expr)} {n : Nat}
    {c : Completion} {t : Store} (h : exec n (.declare kind bindings) env s = .ok c t) :
    c = .normal := by
  obtain _ | n := n <;> rw [exec] at h
  · cases h
  · obtain ⟨_, _, _, hc⟩ := bind_eq_ok h
    cases hc
    rfl

theorem rewritesBindings_members (p : String) (names : List String) :
    rewritesBindings (names.map (Template.memberBinding p)) = names := by
  induction names with
  | nil => rfl
  | cons w names ih => rw [List.map_cons, Template.memberBinding, rewritesBindings, ih]; rfl

/-- Bodies that bind members before their declaration. -/
theorem outputs_bindings {p : String} {names : List String} {rest : List Stmt}
    (hp : p ≠ output.name) (hnames : output.name ∉ names)
    (hrest : output.name ∉ rewritesBody rest) (n : Nat) (g : output.Fair s) :
    output.Outputs (execAll n
        (Template.bindingStatements p names ++ Template.preludeStatement :: rest) callEnv) s
      (Trace.execAll output.name n
        (Template.bindingStatements p names ++ Template.preludeStatement :: rest) callEnv s) := by
  have hdefault : output.name ∉ (Template.defaultStatement p).rewrites := by
    intro hm
    obtain rfl := List.mem_singleton.mp (hm : output.name ∈ [p])
    exact hp rfl
  obtain _ | n := n
  · intro c t h
    rw [execAll] at h
    cases h
  refine .next g hdefault (trace_default p n) (fun c t => exec_expr_normal) fun g₁ => ?_
  cases names with
  | nil => exact outputs_prelude hrest n g₁
  | cons w names =>
      obtain _ | n := n
      · intro c t h
        rw [List.append_eq, execAll] at h
        cases h
      refine .next g₁ ?_ (trace_members p (w :: names) n) (fun c t => exec_declare_normal)
        (outputs_prelude hrest n)
      rwa [Stmt.rewrites, rewritesBindings_members]

/-! ### The function that writes -/

section
variable {a : Ref}

/-- `__a.join('')`, which the function that writes adds. -/
def joinedArguments : Expr :=
  .call (.member (.name "__a") "join") [.string ""]

theorem eval_joined (h : lookUp env "__a" s = .ok (.array a) s) (n : Nat) :
    eval (n + 4) joinedArguments env s = .ok (.string (s.joined (s.items a) "")) s := by
  have arguments : evalAll (n + 2) [.string ""] env s = .ok [.string ""] s := by
    rw [evalAll, eval, evalAll]
    rfl
  rw [joinedArguments, eval, evalCall, eval, run_bind, h]
  dsimp only
  rw [run_bind, arguments]
  dsimp only
  rw [callMethod]
  rfl

theorem trace_joined (h : lookUp env "__a" s = .ok (.array a) s) (name : String) (n : Nat) :
    Trace.eval name (n + 4) joinedArguments env s = [] := by
  have receiver : eval (n + 2) (.name "__a") env s = .ok (.array a) s := by rw [eval, h]
  have arguments : evalAll (n + 2) [.string ""] env s = .ok [.string ""] s := by
    rw [evalAll, eval, evalAll]
    rfl
  rw [joinedArguments, Trace.eval, Trace.evalCall, quiet_name, after_ok receiver,
    after_ok arguments]
  simp [Trace.evalAll, Trace.eval, Trace.callMethod, Method.of?, ArrayMethod.ofName?]

theorem trace_append {current : Value} (h : lookUp env "__a" s = .ok (.array a) s)
    (hp : lookUp env "__p" s = .ok current s) (n : Nat) :
    Trace.exec "__p" (n + 6) Template.appendStatement env s =
      [.append ⟨s.joined (s.items a) "", false⟩] := by
  have place : evalPlace (n + 4) (.name "__p") env s = .ok (.name "__p") s := by
    rw [evalPlace]
    rfl
  have read : (Place.name "__p").read env s = .ok current s := hp
  rw [Template.appendStatement, Trace.exec, Trace.eval, after_ok place, after_ok read]
  show (Trace.evalPlace "__p" (n + 4) (.name "__p") env s ++
    ((Trace.eval "__p" (n + 4) joinedArguments env s).map Append.enclose ++
      after (eval (n + 4) joinedArguments env) s fun v s =>
        [Append.mk (s.text (s.primitive v)) false])).map _ = _
  rw [trace_joined h, after_ok (eval_joined h n)]
  simp [Trace.evalPlace, Store.primitive, Store.text, Store.textWithin?]

theorem enter_writer (s : Store) (arguments : List Value) :
    enter Template.writer callEnv arguments s = .ok (⟨s.scopes.size, true⟩ :: callEnv)
      { s with
        arrays := s.arrays.push arguments.toArray
        scopes := Scopes.put (Scopes.opened s.scopes) s.scopes.size "__a"
          ⟨.array s.arrays.size, true⟩ } := rfl

theorem lookUp_of_find? {n : String} {r : Ref} {v : Value}
    (h : Scopes.find? s.scopes n env = some (r, ⟨v, true⟩)) : lookUp env n s = .ok v s := by
  rw [lookUp_run, h]

/-- **The function that writes** adds its arguments, joined. -/
theorem trace_writer (g : output.Fair s) {out : String} (hs : output.Shows s out)
    (hdepth : s.depth < maxCallDepth) (arguments : List Value) (n : Nat) :
    ∃ u : Store, u.arrays = s.arrays.push arguments.toArray ∧ u.objects = s.objects ∧
      u.functions = s.functions ∧
      Trace.invoke output.name (n + 8) Template.writer callEnv arguments s =
        [.append ⟨u.joined arguments.toArray "", false⟩] := by
  have henter := enter_writer s arguments
  have hwriter : output.name ∉ Template.writer.rewrites := by decide
  obtain ⟨g₁, sh, i⟩ := yields_enter g hwriter output_inside arguments _ _ henter
  have hs₁ := sh out hs
  generalize hu : Store.mk _ _ _ _ _ = u at g₁ hs₁ henter
  generalize hw : { u with depth := u.depth + 1 } = w
  have hitems : w.items s.arrays.size = arguments.toArray := by
    simp [← hw, ← hu, Store.items]
  have array : lookUp (⟨s.scopes.size, true⟩ :: callEnv) "__a" w =
      .ok (.array s.arrays.size) w := by
    refine lookUp_of_find? (r := s.scopes.size) ?_
    rw [← hw, ← hu, Scopes.find?_cons, Scopes.get?_scope_put _ (by simp), if_pos ⟨rfl, rfl⟩]
  have read : lookUp (⟨s.scopes.size, true⟩ :: callEnv) "__p" w =
      .ok (.string (out ++ written [])) w := by
    refine lookUp_of_find? (r := output.scope) ?_
    rw [← hw]
    exact (g₁.find? i).trans (congrArg (Option.map _) hs₁)
  refine ⟨w, by rw [← hw, ← hu], by rw [← hw, ← hu], by rw [← hw, ← hu], ?_⟩
  rw [Trace.invoke, if_neg (Nat.not_le_of_lt hdepth), after_ok henter, hw]
  show Trace.execAll "__p" (n + 7) [Template.appendStatement] _ w = _
  rw [Trace.execAll, trace_append array read, hitems]
  refine List.append_right_eq_self.mpr ?_
  rw [after]
  split
  · split <;> simp [Trace.execAll]
  · rfl
end

/-! ### Calls -/

/-- Where a call from outside has bound its parameters, the output can begin. -/
theorem fair_bothBound {p : String} {data : Json.Document} {v : Value}
    (h : importDocument data Store.initial = .ok v s) :
    output.Fair (s.withScopes (bothBound p v)) := by
  have hsize : Array.size (bothBound p v) = 2 := by simp [bothBound, oneBound]
  refine ⟨?_, fun r hr => ?_, fun d env hm => ?_⟩
  · rw [Store.scopes_withScopes, hsize]
    exact Nat.one_lt_two
  · rw [Store.scopes_withScopes, Scopes.Unbound]
    obtain _ | _ | r := r
    · rfl
    · exact absurd rfl hr
    · rw [Scopes.scope_of_le (by rw [hsize]; omega)]
      rfl
  · rw [Store.functions_withScopes, (importDocument_initial h).2.1] at hm
    exact absurd hm no_closure_initial

theorem fair_hoist {body : List Stmt} {rest : List Stmt} {u : Unit} {t : Store}
    (hfunctions : declareFunctions callEnv body = declareFunctions callEnv rest)
    (hrest : output.name ∉ rewritesBody rest) (g : output.Fair s)
    (h : hoist callEnv body s = .ok u t) : output.Fair t := by
  obtain ⟨_, t₁, hvars, h⟩ := bind_eq_ok h
  rw [hfunctions] at h
  exact (adds_declareFunctions output_inside (fair_declareVars g hvars) hrest _ _ h).1

/-- The trace of a call from outside, from where its parameters are bound. -/
theorem trace_run {p : String} {body : List Stmt} {data : Json.Document} {v : Value}
    (h : importDocument data Store.initial = .ok v s) (name : String) (n : Nat) :
    (Template.functionOf p body).trace name (n + 1) data =
      after (hoist callEnv body) (s.withScopes (bothBound p v)) fun _ t =>
        Trace.execAll name n body callEnv { t with depth := t.depth + 1 } := by
  obtain ⟨hsize, hlt⟩ := importDocument_ready h
  have bound := @bindParameters_both p v s (importDocument_initial h).1
  rw [Definition.trace, after_ok h, Trace.invoke, if_neg (Nat.not_le_of_lt hlt), after,
    Template.functionOf, enter_run hsize bound, run_bind, after]
  cases hoist callEnv body (s.withScopes (bothBound p v)) <;> rfl

/-- **Calls** of functions whose body leaves all that it adds. -/
theorem apply_written {p : String} {body rest : List Stmt}
    (hfunctions : declareFunctions callEnv body = declareFunctions callEnv rest)
    (hrest : output.name ∉ rewritesBody rest)
    (houtputs : ∀ {s : Store} (n : Nat), output.Fair s → output.Outputs (execAll n body callEnv) s
      (Trace.execAll output.name n body callEnv s)) {steps : Nat} {data : Json.Document}
    {out : String} (h : (Template.functionOf p body).apply steps data = .ok out)
    (hleft : .returned (some output.name) ∈
      (Template.functionOf p body).trace output.name steps data) :
    out = written (appended ((Template.functionOf p body).trace output.name steps data)) := by
  cases hdata : importDocument data Store.initial with
  | error e s =>
      simp only [Definition.apply, callWith, run_bind, hdata] at h
      cases h
  | ok v s =>
      obtain _ | n := steps
      · simp only [Definition.apply, callWith, run_bind, hdata, invoke] at h
        cases h
      rw [trace_run hdata] at hleft ⊢
      rw [Template.functionOf,
        apply_run hdata (bindParameters_both v s (importDocument_initial hdata).1)] at h
      cases hrun : runBody n body callEnv (s.withScopes (bothBound p v)) with
      | error e t => rw [hrun] at h; cases h
      | ok result t =>
          rw [hrun] at h
          cases h
          obtain ⟨_, t₁, hhoist, hcall⟩ := bind_eq_ok hrun
          obtain ⟨completion, t₂, hbody, hresult⟩ := bind_eq_ok hcall
          have g₁ : output.Fair t₁ := fair_hoist hfunctions hrest (fair_bothBound hdata) hhoist
          have deeper : output.Fair { t₁ with depth := t₁.depth + 1 } :=
            ⟨g₁.size, g₁.alone, g₁.closures⟩
          rw [after_ok hhoist] at hleft ⊢
          -- the body runs one call deeper, which its output does not depend on
          have outputs := houtputs n deeper
          obtain ⟨u, hu, rfl⟩ := asCall_eq_ok hbody
          obtain ⟨hshows, left⟩ := outputs _ _ hu
          obtain ⟨w, rfl, hw⟩ := left hleft
          obtain rfl := hw _ hshows
          cases hresult
          rfl

end Sink

end Script

namespace Template
open Script Sink

/-- The function of a template, by the statements of its body. -/
theorem function_of_compile {settings : Settings} {text : String} {t : Template}
    (hc : compile settings text = .ok t) {stmts : List Stmt}
    (hparse : parseBody (Body.ofTemplate (pieces settings text)) = .ok stmts) :
    (∃ p, t.function = functionOf p stmts) ∨ t.function = boundFunction dataParameter stmts := by
  cases hdata : settings.dataName with
  | none =>
      rw [compile_default hdata] at hc
      cases hb : build dataParameter (Body.ofTemplate (pieces settings text)) with
      | error e => rw [hb] at hc; cases hc
      | ok d =>
          rw [hb] at hc
          cases hc
          obtain ⟨-, stmts', hparse', rfl⟩ := build_eq_ok.mp hb
          cases hparse.symm.trans hparse'
          exact .inr rfl
  | some name =>
      cases hbare : Variable.isBare name with
      | false =>
          rw [compile_of_not_bare hdata text (by simp [hbare])] at hc
          cases hc
      | true =>
          rw [compile_of_bare hdata text hbare] at hc
          cases hb : build (Text.trim name) (Body.ofTemplate (pieces settings text)) with
          | error e => rw [hb] at hc; cases hc
          | ok d =>
              rw [hb] at hc
              cases hc
              obtain ⟨-, stmts', hparse', rfl⟩ := build_eq_ok.mp hb
              cases hparse.symm.trans hparse'
              exact .inl ⟨_, rfl⟩

/-- **No output is lost.**  Where the statements of a template that follow its first declaration
write the output in no other way than by adding to it, a call that ends by returning the output
gives what its additions have written, in the order in which they were done, those aside that were
done while another one computed its right side. -/
theorem render_written {settings : Settings} {text : String} {t : Template}
    (hc : compile settings text = .ok t) {rest : List Stmt}
    (hparse : parseBody (Body.ofTemplate (pieces settings text)) = .ok (preludeStatement :: rest))
    (hrest : "__p" ∉ rewritesBody rest) {steps : Nat} {data : Json.Document} {out : String}
    (h : t.render steps data = .ok out)
    (hleft : .returned (some "__p") ∈ t.function.trace "__p" steps data) :
    out = written (appended (t.function.trace "__p" steps data)) := by
  rw [render] at h
  rcases function_of_compile hc hparse with ⟨p, hf⟩ | hf
  · rw [hf] at h hleft ⊢
    have hfunctions : declareFunctions callEnv (preludeStatement :: rest) =
        declareFunctions callEnv rest := rfl
    exact apply_written hfunctions hrest (fun n => outputs_prelude hrest n) h hleft
  · rw [hf, boundFunction] at h hleft ⊢
    have hp : isName dataParameter = true := by decide
    have built := build_eq_ok.mpr ⟨hp, _, hparse, rfl⟩
    have hnames := not_mem_freeNames built (n := "__p") (.inl (by decide))
    refine apply_written ?_ hrest (fun n => outputs_bindings (by decide) hnames hrest n) h hleft
    cases freeNames (functionOf dataParameter (preludeStatement :: rest)) <;> rfl

/-- A template that writes in three ways. -/
def threeWays : String := "a<% print('b', 'c') %><%= d %>"

/-- The output of `threeWays` is what its four additions have written. -/
theorem render_written_threeWays :
    ∃ t rest, compile .standard threeWays = .ok t ∧
      parseBody (Body.ofTemplate (pieces .standard threeWays)) = .ok (preludeStatement :: rest) ∧
      "__p" ∉ rewritesBody rest ∧
      t.render 60 (.object [("d", .string "e")]) = .ok "abce" ∧
      .returned (some "__p") ∈ t.function.trace "__p" 60 (.object [("d", .string "e")]) ∧
      "abce" = written (appended (t.function.trace "__p" 60 (.object [("d", .string "e")]))) := by
  have hread : (readBody (bodyChars (pieces .standard threeWays))).toOption.map (fun stmts =>
      ((boundFunction dataParameter stmts).apply 60 (.object [("d", .string "e")]),
        (boundFunction dataParameter stmts).trace "__p" 60 (.object [("d", .string "e")]),
        decide ("__p" ∈ rewritesBody stmts.tail))) =
      some (.ok "abce", [.append ⟨"a", false⟩, .append ⟨"bc", false⟩, .append ⟨"e", false⟩,
        .returned (some "__p")], false) := by decide +kernel
  obtain ⟨stmts, source, hparse, -, hc, hshown⟩ := compile_of_readBody hread rfl
  obtain ⟨rest, rfl⟩ := parseBody_ofTemplate hparse
  obtain ⟨hrender, hshown⟩ := Prod.mk.inj hshown
  obtain ⟨htrace, hscript⟩ := Prod.mk.inj hshown
  have hrest : "__p" ∉ rewritesBody rest := of_decide_eq_false hscript
  have hleft : .returned (some "__p") ∈ (boundFunction dataParameter
      (preludeStatement :: rest)).trace "__p" 60 (.object [("d", .string "e")]) := by
    rw [htrace]
    simp
  exact ⟨_, rest, hc, hparse, hrest, hrender, hleft, render_written hc hparse hrest hrender hleft⟩

/-- A template that writes while it computes what to write. -/
def nestedPrint : String := "<%= print('x') %>"

/-- A template that is left before its end. -/
def leftEarly : String := "a<% return 'x' %>"

/-- No directive of `nestedPrint` or `leftEarly` names the output, and yet a text that is added in
their runs is not in what they give. -/
theorem nestedPrint_lost : (∀ text ∈ [nestedPrint, leftEarly], ∀ kind inner,
      .directive kind inner ∈ pieces .standard text → ¬ "__p".toList <:+: inner) ∧
    (∃ t, compile .standard nestedPrint = .ok t ∧ t.render 60 (.object []) = .ok "" ∧
      ⟨"x", true⟩ ∈ appended (t.function.trace "__p" 60 (.object [])) ∧
      ¬ "x".toList <:+: "".toList) ∧
    (∃ t, compile .standard leftEarly = .ok t ∧ t.render 60 (.object []) = .ok "x" ∧
      ⟨"a", false⟩ ∈ appended (t.function.trace "__p" 60 (.object [])) ∧
      ¬ "a".toList <:+: "x".toList) := by
  have hnested : pieces .standard nestedPrint =
      [.directive .interpolate " print('x') ".toList] := by decide +kernel
  have hleft : pieces .standard leftEarly =
      [.literal "a".toList, .directive .evaluate " return 'x' ".toList] := by decide +kernel
  have hlost : (readBody (bodyChars (pieces .standard nestedPrint))).toOption.map (fun stmts =>
      ((boundFunction dataParameter stmts).apply 60 (.object []),
        appended ((boundFunction dataParameter stmts).trace "__p" 60 (.object [])))) =
      some (.ok "", [⟨"x", true⟩, ⟨"", false⟩]) := by decide +kernel
  have hearly : (readBody (bodyChars (pieces .standard leftEarly))).toOption.map (fun stmts =>
      ((boundFunction dataParameter stmts).apply 60 (.object []),
        appended ((boundFunction dataParameter stmts).trace "__p" 60 (.object [])))) =
      some (.ok "x", [⟨"a", false⟩]) := by decide +kernel
  refine ⟨fun text ht kind inner hm => ?_, ?_, ?_⟩
  · simp only [List.mem_cons, List.not_mem_nil, or_false] at ht
    rcases ht with rfl | rfl
    · rw [hnested] at hm
      simp only [List.mem_cons, List.not_mem_nil, or_false, Piece.directive.injEq] at hm
      obtain ⟨-, rfl⟩ := hm
      decide +kernel
    · rw [hleft] at hm
      simp only [List.mem_cons, List.not_mem_nil, or_false, Piece.directive.injEq, reduceCtorEq,
        false_or] at hm
      obtain ⟨-, rfl⟩ := hm
      decide +kernel
  · obtain ⟨stmts, source, -, -, hc, hshown⟩ := compile_of_readBody hlost rfl
    obtain ⟨hrender, htrace⟩ := Prod.mk.inj hshown
    exact ⟨_, hc, hrender, htrace ▸ List.mem_cons_self, by decide +kernel⟩
  · obtain ⟨stmts, source, -, -, hc, hshown⟩ := compile_of_readBody hearly rfl
    obtain ⟨hrender, htrace⟩ := Prod.mk.inj hshown
    exact ⟨_, hc, hrender, htrace ▸ List.mem_cons_self, by decide +kernel⟩

end Template

end Stencil
