import Stencil.Proofs.Names.Free
import Stencil.Proofs.Runs.Unbound

/-!
# Runs — declarations find their names unbound

A run fails because a name is declared already only over a name with a clash.  `Declares name n`
says of all that goes at most `n` steps deep that it spares a name over which there is no clash:
expressions and calls bind it in no scope that was there before, statements where the tree says so.
`Declares.succ` is the step, with one lemma for each function of the evaluator, and `declares` the
induction.
-/

namespace Stencil.Script
open Discipline

/-- **Runs of `n` steps spare a name without clashes.** -/
structure Declares (name : String) (n : Nat) : Prop where
  eval : ∀ {s} e env, Tame name s → Clear name e.clashes → Silent name (eval n e env) s
  evalAll : ∀ {s} es env, Tame name s → Clear name (clashesAll es) →
    Silent name (evalAll n es env) s
  evalFields : ∀ {s} fields done env, Tame name s → Clear name (clashesFields fields) →
    Silent name (evalFields n fields done env) s
  evalPlace : ∀ {s} e env, Tame name s → Clear name e.clashes → Silent name (evalPlace n e env) s
  evalCall : ∀ {s} callee arguments env, Tame name s →
    Clear name (callee.clashes ++ clashesAll arguments) →
    Silent name (evalCall n callee arguments env) s
  callMethod : ∀ {s} described receiver method arguments, Tame name s →
    Silent name (callMethod n described receiver method arguments) s
  visit : ∀ {s} f whole entries done, Tame name s → Silent name (visit n f whole entries done) s
  call : ∀ {s} f arguments, Tame name s → Silent name (call n f arguments) s
  invoke : ∀ {s} d env arguments, Tame name s → Clear name d.clashes →
    Silent name (invoke n d env arguments) s
  exec : ∀ {s} stmt env, Tame name s → Clear name stmt.clashes →
    Fits name s.scopes env stmt.lexical stmt.hoisted →
    Spares name (BindsIn name env stmt.lexical stmt.hoisted) (exec n stmt env) s fun _ _ => True
  execAll : ∀ {s} body env, Tame name s → Clear name (clashesBody body) →
    Fits name s.scopes env (lexicalNames body) (hoistedNames body) →
    Spares name (BindsIn name env (lexicalNames body) (hoistedNames body)) (execAll n body env) s
      fun _ _ => True
  execBindings : ∀ {s} kind bindings env, Tame name s → Clear name (clashesBindings bindings) →
    Fits name s.scopes env (Stmt.declare kind bindings).lexical
      (Stmt.declare kind bindings).hoisted →
    Spares name (BindsIn name env (Stmt.declare kind bindings).lexical
      (Stmt.declare kind bindings).hoisted) (execBindings n kind bindings env) s fun _ _ => True
  execLoop : ∀ {s} test update body env, Tame name s →
    Clear name ((clashesOption test ++ clashesOption update) ++ (body.asBranch ++ body.clashes)) →
    Stands s.scopes env →
    Spares name (BindsIn name env [] body.hoisted) (execLoop n test update body env) s
      fun _ _ => True
  evalTest : ∀ {s} e env, Tame name s → Clear name (clashesOption e) →
    Silent name (evalTest n e env) s
  evalUpdate : ∀ {s} e env, Tame name s → Clear name (clashesOption e) →
    Silent name (evalUpdate n e env) s
  execEach : ∀ {s} binding items body env, Tame name s →
    Clear name (body.asBranch ++ body.clashes) → Stands s.scopes env →
    Spares name (BindsIn name env [] (loopHoisted binding ++ body.hoisted))
      (execEach n binding items body env) s fun _ _ => True

variable {name : String}

theorem declares_zero : Declares name 0 where
  eval _ _ _ _ := by rw [Script.eval]; exact spares_exhausted
  evalAll _ _ _ _ := by rw [Script.evalAll]; exact spares_exhausted
  evalFields _ _ _ _ _ := by rw [Script.evalFields]; exact spares_exhausted
  evalPlace _ _ _ _ := by rw [Script.evalPlace]; exact spares_exhausted
  evalCall _ _ _ _ _ := by rw [Script.evalCall]; exact spares_exhausted
  callMethod _ _ _ _ _ := by rw [Script.callMethod]; exact spares_exhausted
  visit _ _ _ _ _ := by rw [Script.visit]; exact spares_exhausted
  call _ _ _ := by rw [Script.call]; exact spares_exhausted
  invoke _ _ _ _ _ := by rw [Script.invoke]; exact spares_exhausted
  exec _ _ _ _ _ := by rw [Script.exec]; exact spares_exhausted
  execAll _ _ _ _ _ := by rw [Script.execAll]; exact spares_exhausted
  execBindings _ _ _ _ _ _ := by rw [Script.execBindings]; exact spares_exhausted
  execLoop _ _ _ _ _ _ _ := by rw [Script.execLoop]; exact spares_exhausted
  evalTest _ _ _ _ := by rw [Script.evalTest]; exact spares_exhausted
  evalUpdate _ _ _ _ := by rw [Script.evalUpdate]; exact spares_exhausted
  execEach _ _ _ _ _ _ _ := by rw [Script.execEach]; exact spares_exhausted

/-! ### Places and closures -/

section
variable {s : Store} {env : Env} {may : Ref → Prop}

theorem silent_read (g : Tame name s) (place : Place) :
    Spares name may (place.read env) s fun _ _ => True := by
  cases place with
  | name word => exact silent_lookUp g
  | property base key => exact silent_onHeap (onHeap_getProperty base key) g

theorem silent_write (g : Tame name s) (place : Place) (value : Value) :
    Spares name may (place.write env value) s fun _ _ => True := by
  cases place with
  | name word => exact silent_assignName g value
  | property base key => exact silent_onHeap (onHeap_setProperty base key value) g

theorem Tame.callable (g : Tame name s) {r : Ref} {d : Definition}
    (h : s.callable r = .closure d env) : Clear name d.clashes :=
  g d env (Store.mem_functions h)

/-! ### Declarations -/

theorem lexical_declare (kind : DeclKind) (first : String × Option Expr)
    (rest : List (String × Option Expr)) : (Stmt.declare kind (first :: rest)).lexical =
      (Stmt.declare kind [first]).lexical ++ (Stmt.declare kind rest).lexical := by
  cases kind <;> rfl

theorem spares_bindDeclared (g : Tame name s) {kind : DeclKind} {n : String} {e : Option Expr}
    (f : Fits name s.scopes env (Stmt.declare kind [(n, e)]).lexical
      (Stmt.declare kind [(n, e)]).hoisted) (value : Option Value) :
    Spares name (BindsIn name env (Stmt.declare kind [(n, e)]).lexical
      (Stmt.declare kind [(n, e)]).hoisted) (bindDeclared kind n value env) s fun _ _ => True := by
  have own (hm : n = name) : name ∈ [n] := hm ▸ List.mem_singleton_self _
  cases kind with
  | var =>
      have hoisted (hm : n = name) : name ∈ (Stmt.declare .var [(n, e)]).hoisted := by
        rw [Stmt.hoisted]
        exact own hm
      refine (spares_declareVar g fun hm => .inr ⟨rfl, hoisted hm⟩).bind fun _ t g' _ _ => ?_
      cases value with
      | none => exact silent_pure g' ()
      | some v => exact silent_assignName g' v
  | «let» => exact spares_declare g (fun hm => ⟨f.unbound (own hm), .inl ⟨rfl, own hm⟩⟩) _ true
  | const => exact spares_declare g (fun hm => ⟨f.unbound (own hm), .inl ⟨rfl, own hm⟩⟩) _ false

/-- In a round of a loop names are bound where they were, or in a new scope. -/
theorem spares_bindRound (g : Tame name s) (p : Stands s.scopes env) (binding : LoopBinding)
    (item : Value) :
    Spares name (BindsIn name env [] (loopHoisted binding)) (bindRound binding item env) s
      fun inner t => Stands t.scopes inner ∧ varScope inner = varScope env := by
  obtain ⟨kind, n⟩ := binding
  have own : ∀ mutable : Bool, Spares name (BindsIn name env [] (loopHoisted ⟨kind, n⟩))
      (newScope false env >>= fun inner => define inner n item mutable >>= fun _ => pure inner) s
      fun inner t => Stands t.scopes inner ∧ varScope inner = varScope env := by
    intro mutable
    refine (spares_newScope g false env).bind_inside fun inner t g₁ _ hi => ?_
    obtain ⟨rfl, ht⟩ := hi
    refine (spares_define g₁ (fun _ => .inl (Nat.le_refl _)) item mutable).bind
      fun _ u g₂ sp _ => spares_pure g₂ ⟨?_, varScope_block p.nonempty _⟩
    rw [ht] at sp
    exact p.block.mono sp.size
  cases kind with
  | none =>
      exact (silent_assignName g item).bind fun _ t g' sp _ =>
        spares_pure g' ⟨p.mono sp.size, rfl⟩
  | some kind =>
      cases kind with
      | var =>
          refine (spares_declareVar g fun hm => .inr ⟨rfl, hm ▸ List.mem_singleton_self _⟩).bind
            fun _ t g₁ sp₁ _ => (silent_assignName g₁ item).bind fun _ u g₂ sp₂ _ => ?_
          exact spares_pure g₂ ⟨(p.mono sp₁.size).mono sp₂.size, rfl⟩
      | «let» => exact own true
      | const => exact own false

end

/-! ### Expressions -/

section
variable {n : Nat} (ih : Declares name n) {s : Store}
include ih

theorem Declares.evalPlace_succ (e : Expr) (env : Env) (g : Tame name s)
    (h : Clear name e.clashes) : Silent name (Script.evalPlace (n + 1) e env) s := by
  cases e with
  | name word => rw [Script.evalPlace]; exact silent_pure g _
  | member object key =>
      rw [Script.evalPlace]
      exact (ih.eval object env g h).bind fun base t g' _ _ => silent_pure g' _
  | index object key =>
      rw [Expr.clashes, clear_append] at h
      rw [Script.evalPlace]
      refine (ih.eval object env g h.1).bind fun base t g₁ _ _ => ?_
      refine (ih.eval key env g₁ h.2).bind fun k u g₂ _ _ => ?_
      exact .reading (silent_pure g₂ _)
  | _ => rw [Script.evalPlace] <;> first | exact spares_fail (fun h => by cases h) | (intros; contradiction)

theorem Declares.eval_succ (e : Expr) (env : Env) (g : Tame name s) (h : Clear name e.clashes) :
    Silent name (Script.eval (n + 1) e env) s := by
  cases e with
  | number x => rw [Script.eval]; exact silent_pure g _
  | string t => rw [Script.eval]; exact silent_pure g _
  | bool b => rw [Script.eval]; exact silent_pure g _
  | null => rw [Script.eval]; exact silent_pure g _
  | name word => rw [Script.eval]; exact silent_lookUp g
  | array items =>
      rw [Script.eval]
      exact (ih.evalAll items env g h).bind fun values t g' _ _ =>
        silent_onHeap (onHeap_newArray _) g'
  | object fields =>
      rw [Script.eval]
      exact (ih.evalFields fields [] env g h).bind fun all t g' _ _ =>
        silent_onHeap (onHeap_newObject _) g'
  | function definition => rw [Script.eval]; exact silent_functionValue g h
  | member object key =>
      rw [Script.eval]
      exact (ih.eval object env g h).bind fun base t g' _ _ =>
        silent_onHeap (onHeap_getProperty base key) g'
  | index object key =>
      rw [Expr.clashes, clear_append] at h
      rw [Script.eval]
      refine (ih.eval object env g h.1).bind fun base t g₁ _ _ => ?_
      refine (ih.eval key env g₁ h.2).bind fun k u g₂ _ _ => ?_
      exact .reading (silent_onHeap (onHeap_getProperty base _) g₂)
  | call callee arguments => rw [Script.eval]; exact ih.evalCall callee arguments env g h
  | unary op operand =>
      rcases typeof_name_or op operand with ⟨word, rfl, rfl⟩ | hn
      · rw [Script.eval]
        exact silent_typeOfName g
      · rw [Script.eval]
        · exact (ih.eval operand env g h).bind fun v t g' _ _ =>
            silent_onHeap (onHeap_applyUnary op v) g'
        · exact hn
  | update increment before target =>
      rw [Script.eval]
      refine (ih.evalPlace target env g h).bind fun place t g₁ _ _ => ?_
      refine (silent_read g₁ place).bind fun v u g₂ _ _ => .reading ?_
      exact (silent_write g₂ place _).bind fun _ w g₃ _ _ => silent_pure g₃ _
  | binary op left right =>
      rw [Expr.clashes, clear_append] at h
      rw [Script.eval]
      refine (ih.eval left env g h.1).bind fun v t g₁ _ _ => ?_
      refine (ih.eval right env g₁ h.2).bind fun w u g₂ _ _ => ?_
      exact silent_onHeap (onHeap_operate op v w) g₂
  | logical op left right =>
      rw [Expr.clashes, clear_append] at h
      rw [Script.eval]
      refine (ih.eval left env g h.1).bind fun v t g₁ _ _ => ?_
      split
      · exact silent_pure g₁ v
      · exact ih.eval right env g₁ h.2
  | conditional test yes no =>
      rw [Expr.clashes, clear_append, clear_append] at h
      rw [Script.eval]
      refine (ih.eval test env g h.1).bind fun v t g₁ _ _ => ?_
      split
      · exact ih.eval yes env g₁ h.2.1
      · exact ih.eval no env g₁ h.2.2
  | assign op target value =>
      rw [Expr.clashes, clear_append] at h
      rw [Script.eval]
      refine (ih.evalPlace target env g h.1).bind fun place t g₁ _ _ => ?_
      cases op with
      | none =>
          refine (ih.eval value env g₁ h.2).bind fun v u g₂ _ _ => ?_
          exact (silent_write g₂ place v).bind fun _ w g₃ _ _ => silent_pure g₃ v
      | some op =>
          refine (silent_read g₁ place).bind fun current u g₂ _ _ => ?_
          refine (ih.eval value env g₂ h.2).bind fun operand w g₃ _ _ => ?_
          refine (silent_onHeap (onHeap_operate op current operand) g₃).bind fun v x g₄ _ _ => ?_
          exact (silent_write g₄ place v).bind fun _ y g₅ _ _ => silent_pure g₅ v

theorem Declares.evalAll_succ (es : List Expr) (env : Env) (g : Tame name s)
    (h : Clear name (clashesAll es)) : Silent name (Script.evalAll (n + 1) es env) s := by
  cases es with
  | nil => rw [Script.evalAll]; exact silent_pure g _
  | cons e rest =>
      rw [clashesAll, clear_append] at h
      rw [Script.evalAll]
      refine (ih.eval e env g h.1).bind fun v t g₁ _ _ => ?_
      exact (ih.evalAll rest env g₁ h.2).bind fun vs u g₂ _ _ => silent_pure g₂ _

theorem Declares.evalFields_succ (fields : List (String × Expr)) (done : Fields) (env : Env)
    (g : Tame name s) (h : Clear name (clashesFields fields)) :
    Silent name (Script.evalFields (n + 1) fields done env) s := by
  cases fields with
  | nil => rw [Script.evalFields]; exact silent_pure g _
  | cons field rest =>
      obtain ⟨key, value⟩ := field
      rw [clashesFields, clear_append] at h
      rw [Script.evalFields]
      refine (ih.eval value env g h.1).bind fun v t g₁ _ _ => ?_
      exact ih.evalFields rest (done.put key v) env g₁ h.2

/-! ### Calls -/

theorem Declares.call_or_fail {f : Value} {arguments : List Value} (g : Tame name s)
    (what : String) : Silent name
      (if f.isFunction then Script.call n f arguments else fail (.notCallable what)) s := by
  split
  · exact ih.call f arguments g
  · exact spares_fail (fun h => by cases h)

theorem Declares.evalCall_succ (callee : Expr) (arguments : List Expr) (env : Env)
    (g : Tame name s) (h : Clear name (callee.clashes ++ clashesAll arguments)) :
    Silent name (Script.evalCall (n + 1) callee arguments env) s := by
  obtain ⟨hc, ha⟩ := clear_append.mp h
  have general : Silent name (Script.eval n callee env >>= fun f => Script.evalAll n arguments env >>=
      fun values => if f.isFunction then Script.call n f values
        else fail (.notCallable callee.describe)) s := by
    refine (ih.eval callee env g hc).bind fun f t g₁ _ _ => ?_
    refine (ih.evalAll arguments env g₁ ha).bind fun values u g₂ _ _ => ?_
    exact ih.call_or_fail g₂ _
  cases callee with
  | member object key =>
      rw [Script.evalCall]
      refine (ih.eval object env g hc).bind fun receiver t g₁ _ _ => ?_
      refine (ih.evalAll arguments env g₁ ha).bind fun values u g₂ _ _ => ?_
      exact ih.callMethod _ receiver key values g₂
  | index object key =>
      rw [Expr.clashes, clear_append] at hc
      rw [Script.evalCall]
      refine (ih.eval object env g hc.1).bind fun receiver t g₁ _ _ => ?_
      refine (ih.eval key env g₁ hc.2).bind fun k u g₂ _ _ => .reading ?_
      refine (ih.evalAll arguments env g₂ ha).bind fun values v g₃ _ _ => ?_
      exact ih.callMethod _ receiver _ values g₃
  | _ => rw [Script.evalCall] <;> first | exact general | (intros; contradiction)

theorem Declares.callMethod_succ (described : String) (receiver : Value) (method : String)
    (arguments : List Value) (g : Tame name s) :
    Silent name (Script.callMethod (n + 1) described receiver method arguments) s := by
  rw [Script.callMethod]
  split
  · exact silent_onHeap (ArrayMethod.onHeap_run _ _ _) g
  · exact silent_onHeap (StringMethod.onHeap_run _ _ _) g
  · exact silent_onHeap (NumberMethod.onHeap_run _ _ _) g
  · exact silent_pure g _
  · refine .reading ((ih.visit _ receiver _ [] g).bind fun returned t g₁ _ _ => ?_)
    exact silent_onHeap (ArrayVisit.onHeap_collect _ _ returned) g₁
  · refine (silent_onHeap (onHeap_getProperty receiver method) g).bind fun f t g₁ _ _ => ?_
    exact ih.call_or_fail g₁ _

theorem Declares.visit_succ (f whole : Value) (entries : List (Value × Value)) (done : List Value)
    (g : Tame name s) : Silent name (Script.visit (n + 1) f whole entries done) s := by
  cases entries with
  | nil => rw [Script.visit]; exact silent_pure g _
  | cons entry rest =>
      rw [Script.visit]
      exact (ih.call f _ g).bind fun r t g₁ _ _ => ih.visit f whole rest (r :: done) g₁

theorem Declares.call_succ (f : Value) (arguments : List Value) (g : Tame name s) :
    Silent name (Script.call (n + 1) f arguments) s := by
  rw [Script.call]
  refine .reading ?_
  cases f with
  | function r =>
      dsimp only
      split
      · rename_i d env e
        exact ih.invoke d env arguments g (g.callable e)
      · exact (ih.visit _ _ _ [] g).bind fun returned t g₁ _ _ => silent_pure g₁ _
      · exact (ih.visit _ _ _ [] g).bind fun returned t g₁ _ _ =>
          silent_onHeap (onHeap_newArray _) g₁
      · exact silent_onHeap (PlainNative.onHeap_run _ _) g
  | _ => exact spares_fail (fun h => by cases h)

/-- A call binds nothing in the scopes that were there before. -/
theorem Declares.invoke_succ (hname : name ≠ "") (d : Definition) (env : Env)
    (arguments : List Value) (g : Tame name s) (h : Clear name d.clashes) :
    Silent name (Script.invoke (n + 1) d env arguments) s := by
  rw [Script.invoke]
  refine .reading ?_
  split
  · exact spares_fail (fun h => by cases h)
  · have hbody : Clear name (clashesBody d.body) := by
      rw [d.clashes_eq, clear_append] at h
      exact h.2
    refine (spares_enter hname g h arguments).bind_inside fun inner t g₁ _ hi => ?_
    obtain ⟨fits, hown, hvar⟩ := hi
    have body := ih.execAll d.body inner (s := { t with depth := t.depth + 1 }) g₁ hbody fits
    refine (spares_asCall (body.mono fun r b => ?_)).bind fun completion u g₂ _ _ => ?_
    · refine .inl (Nat.le_of_eq ?_)
      exact b.elim (fun b => (b.1.trans hown).symm) (fun b => (b.1.trans hvar).symm)
    · cases completion <;> exact silent_pure g₂ _

/-! ### Statements -/

theorem Declares.exec_branch (stmt : Stmt) (env : Env) (g : Tame name s)
    (h : Clear name (stmt.asBranch ++ stmt.clashes)) (p : Stands s.scopes env) :
    Spares name (BindsIn name env [] stmt.hoisted) (Script.exec n stmt env) s fun _ _ => True := by
  rw [clear_append] at h
  have hl := h.1.not_mem_lexical
  exact (ih.exec stmt env g h.2 (p.fits hl)).mono fun _ => .of_branch hl

theorem Declares.exec_block (body : List Stmt) (env : Env) (g : Tame name s)
    (h : Clear name (Stmt.block body).clashes)
    (f : Fits name s.scopes env (Stmt.block body).lexical (Stmt.block body).hoisted) :
    Spares name (BindsIn name env (Stmt.block body).lexical (Stmt.block body).hoisted)
      (Script.exec (n + 1) (.block body) env) s fun _ _ => True := by
  rw [Stmt.clashes, clear_append] at h
  rw [Script.exec]
  refine (spares_newScope g false env).bind_inside fun inner t g₁ _ hi => ?_
  obtain ⟨rfl, ht⟩ := hi
  have fits : Fits name t.scopes (⟨s.scopes.size, false⟩ :: env) (lexicalNames body)
      (hoistedNames body) := f.opened ht (count_le_one h.1.not_mem_of_repeated)
  exact (ih.execAll body _ g₁ h.2 fits).mono fun _ b => b.of_block f.nonempty

theorem Declares.exec_if (test : Expr) (yes : Stmt) (no : Option Stmt) (env : Env)
    (g : Tame name s) (h : Clear name (Stmt.branch test yes no).clashes) (p : Stands s.scopes env) :
    Spares name (BindsIn name env [] (Stmt.branch test yes no).hoisted)
      (Script.exec (n + 1) (.branch test yes no) env) s fun _ _ => True := by
  rw [Stmt.clashes, clear_append, clear_append] at h
  obtain ⟨ht, hy, hn⟩ := h
  have first {t : Store} (g' : Tame name t) (sp : Scopes.Spared name
      (BindsIn name env [] (yes.hoisted ++ hoistedIn no)) s.scopes t.scopes) :
      Spares name (BindsIn name env [] (yes.hoisted ++ hoistedIn no)) (Script.exec n yes env) t
        fun _ _ => True :=
    (ih.exec_branch yes env g' hy (p.mono sp.size)).mono fun _ b =>
      b.imp id (List.mem_append_left _)
  cases no with
  | none =>
      rw [Script.exec]
      refine (ih.eval test env g ht).spares.bind fun v t g₁ sp _ => ?_
      split
      · exact first g₁ sp
      · exact silent_pure g₁ _
  | some no =>
      rw [Script.exec]
      refine (ih.eval test env g ht).spares.bind fun v t g₁ sp _ => ?_
      split
      · exact first g₁ sp
      · exact (ih.exec_branch no env g₁ hn (p.mono sp.size)).mono fun _ b =>
          b.imp id (List.mem_append_right _)

theorem Declares.exec_loop (init : Option Stmt) (test update : Option Expr) (body : Stmt) (env : Env)
    (g : Tame name s) (h : Clear name (Stmt.loop init test update body).clashes) {l : List String}
    (f : Fits name s.scopes env l (Stmt.loop init test update body).hoisted) :
    Spares name (BindsIn name env l (Stmt.loop init test update body).hoisted)
      (Script.exec (n + 1) (.loop init test update body) env) s fun _ _ => True := by
  rw [Stmt.clashes, clear_append, clear_append] at h
  obtain ⟨⟨hrep, hinit⟩, hloop⟩ := h
  have rounds {t : Store} (g' : Tame name t) (p : Stands t.scopes (⟨s.scopes.size, false⟩ :: env)) :
      Spares name (fun r => s.scopes.size ≤ r ∨
          BindsIn name env l (hoistedIn init ++ body.hoisted) r)
        (Script.execLoop n test update body (⟨s.scopes.size, false⟩ :: env)) t
        fun _ _ => True :=
    (ih.execLoop test update body _ g' hloop p).mono fun _ b =>
      (b.of_block f.nonempty).imp_right fun b => b.imp nofun (List.mem_append_right _)
  cases init with
  | none =>
      rw [Script.exec]
      refine (spares_newScope g false env).bind_inside fun inner t g₁ _ hi => ?_
      obtain ⟨rfl, ht⟩ := hi
      exact rounds g₁ (ht ▸ f.toStands.block)
  | some init =>
      rw [Script.exec]
      refine (spares_newScope g false env).bind_inside fun inner t g₁ _ hi => ?_
      obtain ⟨rfl, ht⟩ := hi
      have fits : Fits name t.scopes (⟨s.scopes.size, false⟩ :: env) init.lexical init.hoisted :=
        f.opened ht (count_le_one hrep.not_mem_of_repeated)
      refine Spares.bind ((ih.exec init _ g₁ hinit fits).mono fun _ b =>
        (b.of_block f.nonempty).imp_right fun b => b.imp nofun (List.mem_append_left _))
        fun _ u g₂ sp _ => rounds g₂ (fits.toStands.mono sp.size)

theorem Declares.exec_succ (hname : name ≠ "") (stmt : Stmt) (env : Env) (g : Tame name s)
    (h : Clear name stmt.clashes) (f : Fits name s.scopes env stmt.lexical stmt.hoisted) :
    Spares name (BindsIn name env stmt.lexical stmt.hoisted) (Script.exec (n + 1) stmt env) s
      fun _ _ => True := by
  cases stmt with
  | expr e =>
      rw [Script.exec]
      exact (ih.eval e env g h).spares.bind fun _ t g' _ _ => silent_pure g' _
  | declare kind bindings =>
      rw [Script.exec]
      exact (ih.execBindings kind bindings env g h f).bind fun _ t g' _ _ => silent_pure g' _
  | function definition =>
      rw [Script.exec]
      exact (spares_declareFunction hname g h).bind fun _ t g' _ _ => silent_pure g' _
  | block body => exact ih.exec_block body env g h f
  | branch test yes no => exact ih.exec_if test yes no env g h f.toStands
  | loop init test update body => exact ih.exec_loop init test update body env g h f
  | forIn binding subject body =>
      rw [Stmt.clashes, clear_append] at h
      rw [Script.exec]
      refine (ih.eval subject env g h.1).spares.bind fun v t g₁ sp _ => .reading ?_
      exact ih.execEach binding _ body env g₁ h.2 (f.toStands.mono sp.size)
  | forOf binding subject body =>
      rw [Stmt.clashes, clear_append] at h
      rw [Script.exec]
      refine (ih.eval subject env g h.1).spares.bind fun v t g₁ sp₁ _ => ?_
      refine (silent_onHeap (onHeap_loopItems v) g₁).bind fun items u g₂ sp₂ _ => ?_
      exact ih.execEach binding items body env g₂ h.2 ((f.toStands.mono sp₁.size).mono sp₂.size)
  | whileLoop test body =>
      rw [Script.exec]
      refine ih.execLoop (some test) none body env g ?_ f.toStands
      rwa [clashesOption, clashesOption, List.append_nil]
  | «break» => rw [Script.exec]; exact silent_pure g _
  | «continue» => rw [Script.exec]; exact silent_pure g _
  | «return» value =>
      cases value with
      | none => rw [Script.exec]; exact silent_pure g _
      | some e =>
          rw [Script.exec]
          exact (ih.eval e env g h).spares.bind fun v t g' _ _ => silent_pure g' _
  | empty => rw [Script.exec]; exact silent_pure g _

theorem Declares.execAll_succ (body : List Stmt) (env : Env) (g : Tame name s)
    (h : Clear name (clashesBody body))
    (f : Fits name s.scopes env (lexicalNames body) (hoistedNames body)) :
    Spares name (BindsIn name env (lexicalNames body) (hoistedNames body))
      (Script.execAll (n + 1) body env) s fun _ _ => True := by
  cases body with
  | nil => rw [Script.execAll]; exact silent_pure g _
  | cons first rest =>
      rw [clashesBody, clear_append] at h
      have split : lexicalNames (first :: rest) = first.lexical ++ lexicalNames rest := rfl
      rw [split, hoistedNames] at f ⊢
      rw [Script.execAll]
      refine (ih.exec first env g h.1 f.first).bind_rest f fun completion t g₁ f' => ?_
      cases completion with
      | normal => exact (ih.execAll rest env g₁ h.2 f').mono fun _ => .append_right
      | _ => exact silent_pure g₁ _

theorem Declares.execBindings_succ (kind : DeclKind) (bindings : List (String × Option Expr))
    (env : Env) (g : Tame name s) (h : Clear name (clashesBindings bindings))
    (f : Fits name s.scopes env (Stmt.declare kind bindings).lexical
      (Stmt.declare kind bindings).hoisted) :
    Spares name (BindsIn name env (Stmt.declare kind bindings).lexical
      (Stmt.declare kind bindings).hoisted) (Script.execBindings (n + 1) kind bindings env) s
      fun _ _ => True := by
  cases bindings with
  | nil => rw [Script.execBindings]; exact silent_pure g _
  | cons first rest =>
      obtain ⟨own, value⟩ := first
      rw [clashesBindings, clear_append] at h
      rw [lexical_declare, hoisted_declare] at f ⊢
      have others {t : Store} (g' : Tame name t) (f' : Fits name t.scopes env
          (Stmt.declare kind rest).lexical (Stmt.declare kind rest).hoisted) :=
        (ih.execBindings kind rest env g' h.2 f').mono
          fun _ => @BindsIn.append_right name env (Stmt.declare kind [(own, value)]).lexical _
            (Stmt.declare kind [(own, value)]).hoisted _ _
      cases value with
      | none =>
          rw [Script.execBindings]
          exact (spares_bindDeclared g f.first none).bind_rest f fun _ t g₁ f' => others g₁ f'
      | some e =>
          rw [Script.execBindings]
          refine Spares.bind ((ih.eval e env g h.1).imp (fun _ _ => False.elim)
            fun _ _ sp _ => f.after sp) fun v t g₁ _ f₁ => ?_
          exact (spares_bindDeclared g₁ f₁.first (some v)).bind_rest f₁
            fun _ u g₂ f' => others g₂ f'

theorem Declares.evalTest_succ (e : Option Expr) (env : Env) (g : Tame name s)
    (h : Clear name (clashesOption e)) : Silent name (Script.evalTest (n + 1) e env) s := by
  cases e with
  | none => rw [Script.evalTest]; exact silent_pure g _
  | some e =>
      rw [Script.evalTest]
      exact (ih.eval e env g h).bind fun v t g' _ _ => silent_pure g' _

theorem Declares.evalUpdate_succ (e : Option Expr) (env : Env) (g : Tame name s)
    (h : Clear name (clashesOption e)) : Silent name (Script.evalUpdate (n + 1) e env) s := by
  cases e with
  | none => rw [Script.evalUpdate]; exact silent_pure g _
  | some e =>
      rw [Script.evalUpdate]
      exact (ih.eval e env g h).bind fun v t g' _ _ => silent_pure g' _

theorem Declares.execLoop_succ (test update : Option Expr) (body : Stmt) (env : Env)
    (g : Tame name s) (h : Clear name
      ((clashesOption test ++ clashesOption update) ++ (body.asBranch ++ body.clashes)))
    (p : Stands s.scopes env) :
    Spares name (BindsIn name env [] body.hoisted) (Script.execLoop (n + 1) test update body env) s
      fun _ _ => True := by
  obtain ⟨⟨ht, hu⟩, hb⟩ := And.imp_left clear_append.mp (clear_append.mp h)
  rw [Script.execLoop]
  refine (ih.evalTest test env g ht).spares.bind fun goesOn t g₁ sp₁ _ => ?_
  split
  · have p₁ := p.mono sp₁.size
    refine (ih.exec_branch body env g₁ hb p₁).bind fun completion u g₂ sp₂ _ => ?_
    have again : Spares name (BindsIn name env [] body.hoisted)
        (Script.evalUpdate n update env >>= fun _ => Script.execLoop n test update body env) u
        fun _ _ => True :=
      (ih.evalUpdate update env g₂ hu).spares.bind fun _ v g₃ sp₃ _ =>
        ih.execLoop test update body env g₃ h ((p₁.mono sp₂.size).mono sp₃.size)
    cases completion with
    | «break» => exact silent_pure g₂ _
    | «return» v => exact silent_pure g₂ _
    | _ => exact again
  · exact silent_pure g₁ _

theorem Declares.execEach_succ (binding : LoopBinding) (items : List Value) (body : Stmt)
    (env : Env) (g : Tame name s) (h : Clear name (body.asBranch ++ body.clashes))
    (p : Stands s.scopes env) :
    Spares name (BindsIn name env [] (loopHoisted binding ++ body.hoisted))
      (Script.execEach (n + 1) binding items body env) s fun _ _ => True := by
  cases items with
  | nil => rw [Script.execEach]; exact silent_pure g _
  | cons item rest =>
      rw [Script.execEach]
      refine Spares.bind ((spares_bindRound g p binding item).mono fun _ b =>
        b.imp id (List.mem_append_left _)) fun inner t g₁ sp₁ hi => ?_
      obtain ⟨p', hvar⟩ := hi
      refine Spares.bind ((ih.exec_branch body inner g₁ h p').mono fun _ b => ?_)
        fun completion u g₂ sp₂ _ => ?_
      · obtain ⟨-, hin⟩ | ⟨hr, hm⟩ := b
        · cases hin
        · exact .inr ⟨hr.trans hvar, List.mem_append_right _ hm⟩
      · have again := ih.execEach binding rest body env g₂ h ((p.mono sp₁.size).mono sp₂.size)
        cases completion with
        | «break» => exact silent_pure g₂ _
        | «return» v => exact silent_pure g₂ _
        | _ => exact again

theorem Declares.succ (hname : name ≠ "") : Declares name (n + 1) where
  eval := ih.eval_succ
  evalAll := ih.evalAll_succ
  evalFields := ih.evalFields_succ
  evalPlace := ih.evalPlace_succ
  evalCall := ih.evalCall_succ
  callMethod := ih.callMethod_succ
  visit := ih.visit_succ
  call := ih.call_succ
  invoke := ih.invoke_succ hname
  exec := ih.exec_succ hname
  execAll := ih.execAll_succ
  execBindings := ih.execBindings_succ
  execLoop := ih.execLoop_succ
  evalTest := ih.evalTest_succ
  evalUpdate := ih.evalUpdate_succ
  execEach := ih.execEach_succ

end

/-- **Every run spares a name without clashes.** -/
theorem declares (hname : name ≠ "") : ∀ n, Declares name n
  | 0 => declares_zero
  | n + 1 => (declares hname n).succ hname

/-- **Declarations find their names unbound** in every call from outside, if there is no clash. -/
theorem not_alreadyDeclared_of_apply (hname : name ≠ "") {d : Definition}
    (h : Clear name d.clashes) (steps : Nat) (data : Json.Document) :
    d.apply steps data ≠ .error (.fault (.alreadyDeclared name)) := by
  have tame : Tame name Store.initial := fun _ _ hm => absurd hm no_closure_initial
  have spared : Silent name (callWith steps d data) Store.initial := by
    refine (silent_onHeap (onHeap_importDocument data) tame).bind fun v t g _ _ => ?_
    refine ((declares hname steps).invoke d globalEnv [v, helper] g h).bind fun r u g' _ _ => ?_
    exact .reading (silent_pure g' _)
  intro e
  obtain ⟨t, hr⟩ := callWith_of_apply e
  exact spared.fault t hr

end Stencil.Script
