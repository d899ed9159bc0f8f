import Stencil.Proofs.Runs.Bindings

/-!
# Runs — every run keeps to a discipline

A script whose mentions a discipline admits, at a place where its uses are known, runs in keeping
with the discipline, whatever it does.  `D.Runs n` says so of all that goes at most `n` steps deep,
one field for each function of the evaluator; `Runs.succ` is the step, with one lemma for each
field, and `runs` the induction.
-/

namespace Stencil.Script
namespace Discipline

variable {D : Discipline}

/-- A target is known and may be assigned to if it is a name. -/
def ReadyPlace (D : Discipline) (σ : Scopes) (env : Env) : Script.Place → Prop
  | .name word => D.Knows σ env word ∧ D.Writable word
  | .property _ _ => True

theorem ReadyPlace.mono {σ τ : Scopes} {env : Env} {place : Script.Place}
    (h : D.ReadyPlace σ env place) (g : σ.Grows τ) : D.ReadyPlace τ env place := by
  cases place with
  | name word => exact ⟨h.1.mono g, h.2⟩
  | property base key => trivial

/-- **Runs of `n` steps keep to a discipline.** -/
structure Runs (D : Discipline) (n : Nat) : Prop where
  eval : ∀ {s} e env, D.Good s → D.Ready s.scopes env e.mentions (e.uses []) →
    D.Safe (eval n e env) s
  evalAll : ∀ {s} es env, D.Good s → D.Ready s.scopes env (mentionsAll es) (usesAll [] es) →
    D.Safe (evalAll n es env) s
  evalFields : ∀ {s} fields done env, D.Good s →
    D.Ready s.scopes env (mentionsFields fields) (usesFields [] fields) →
    D.Safe (evalFields n fields done env) s
  evalPlace : ∀ {s} e env, D.Good s → D.Ready s.scopes env (e.asTarget ++ e.mentions) (e.uses []) →
    D.Holds (evalPlace n e env) s fun place t => D.ReadyPlace t.scopes env place
  evalCall : ∀ {s} callee arguments env, D.Good s →
    D.Ready s.scopes env (callee.mentions ++ mentionsAll arguments)
      (callee.uses [] ++ usesAll [] arguments) →
    D.Safe (evalCall n callee arguments env) s
  callMethod : ∀ {s} described receiver name arguments, D.Good s →
    D.Safe (callMethod n described receiver name arguments) s
  visit : ∀ {s} f whole entries done, D.Good s → D.Safe (visit n f whole entries done) s
  call : ∀ {s} f arguments, D.Good s → D.Safe (call n f arguments) s
  invoke : ∀ {s} d env arguments, D.Good s →
    D.Ready s.scopes env d.mentions (d.unnamed.uses []) → D.Safe (invoke n d env arguments) s
  exec : ∀ {s} stmt env, D.Good s → D.Ready s.scopes env stmt.mentions (stmt.uses []) →
    D.Safe (exec n stmt env) s
  execAll : ∀ {s} body env, D.Good s → D.Ready s.scopes env (mentionsBody body) (usesBody [] body) →
    D.Safe (execAll n body env) s
  execBindings : ∀ {s} kind bindings env, D.Good s →
    D.Ready s.scopes env (mentionsBindings kind bindings) (usesBindings [] bindings) →
    D.Safe (execBindings n kind bindings env) s
  execLoop : ∀ {s} test update body env, D.Good s →
    D.Ready s.scopes env (mentionsOption test ++ mentionsOption update ++ body.mentions)
      (usesOption [] test ++ usesOption [] update ++ body.uses []) →
    D.Safe (execLoop n test update body env) s
  evalTest : ∀ {s} e env, D.Good s → D.Ready s.scopes env (mentionsOption e) (usesOption [] e) →
    D.Safe (evalTest n e env) s
  evalUpdate : ∀ {s} e env, D.Good s → D.Ready s.scopes env (mentionsOption e) (usesOption [] e) →
    D.Safe (evalUpdate n e env) s
  execEach : ∀ {s} binding items body env, D.Good s →
    D.Ready s.scopes env (binding.mentions ++ body.mentions)
      (usesLoop [] binding ++ body.uses (binding.lexical ++ [])) →
    D.Safe (execEach n binding items body env) s

theorem runs_zero : D.Runs 0 where
  eval _ _ _ _ := by rw [Script.eval]; exact holds_exhausted
  evalAll _ _ _ _ := by rw [Script.evalAll]; exact holds_exhausted
  evalFields _ _ _ _ _ := by rw [Script.evalFields]; exact holds_exhausted
  evalPlace _ _ _ _ := by rw [Script.evalPlace]; exact holds_exhausted
  evalCall _ _ _ _ _ := by rw [Script.evalCall]; exact holds_exhausted
  callMethod _ _ _ _ _ := by rw [Script.callMethod]; exact holds_exhausted
  visit _ _ _ _ _ := by rw [Script.visit]; exact holds_exhausted
  call _ _ _ := by rw [Script.call]; exact holds_exhausted
  invoke _ _ _ _ _ := by rw [Script.invoke]; exact holds_exhausted
  exec _ _ _ _ := by rw [Script.exec]; exact holds_exhausted
  execAll _ _ _ _ := by rw [Script.execAll]; exact holds_exhausted
  execBindings _ _ _ _ _ := by rw [Script.execBindings]; exact holds_exhausted
  execLoop _ _ _ _ _ _ := by rw [Script.execLoop]; exact holds_exhausted
  evalTest _ _ _ _ := by rw [Script.evalTest]; exact holds_exhausted
  evalUpdate _ _ _ _ := by rw [Script.evalUpdate]; exact holds_exhausted
  execEach _ _ _ _ _ _ := by rw [Script.execEach]; exact holds_exhausted

/-! ### Places -/

section
variable {s : Store} {env : Env}

theorem safe_read (g : D.Good s) (p : D.Place s.scopes env) {place : Script.Place}
    (h : D.ReadyPlace s.scopes env place) : D.Safe (place.read env) s := by
  cases place with
  | name word => exact safe_lookUp g p h.1
  | property base key => exact safe_onHeap (onHeap_getProperty base key) g

theorem safe_write (g : D.Good s) {place : Script.Place} (h : D.ReadyPlace s.scopes env place)
    (value : Value) : D.Safe (place.write env value) s := by
  cases place with
  | name word => exact safe_assignName g h.1 h.2 value
  | property base key => exact safe_onHeap (onHeap_setProperty base key value) g

end

/-! ### Closures and loops -/

theorem Good.callable (g : D.Good s) {r : Ref} {d : Definition} {env : Env}
    (h : s.callable r = .closure d env) : D.Ready s.scopes env d.mentions (d.unnamed.uses []) :=
  g.closures d env (Store.mem_functions h)

/-- The parts of a loop are ready in the scope of its header. -/
theorem Ready.loop {σ τ : Scopes} {env inner : Env} {init : Option Stmt} {test update : Option Expr}
    {body : Stmt} (h : D.Ready σ env (Stmt.loop init test update body).mentions
      ((Stmt.loop init test update body).uses []))
    (p : D.Place τ inner) (hk : ∀ n, D.Knows σ env n → D.Knows τ inner n) :
    D.Ready τ inner (mentionsStmt init) (usesStmt [] init) ∧
      D.Ready τ inner (mentionsOption test ++ mentionsOption update ++ body.mentions)
        (usesOption [] test ++ usesOption [] update ++ body.uses []) := by
  rw [← ready_append]
  refine h.inside ((init.map Stmt.lexical).getD []) p ?_ ?_ fun n hn hb => ?_
  · rintro n (hn | hn)
    · cases init with
      | none => cases hn
      | some init =>
          obtain ⟨m, hm, hl⟩ := Stmt.isLexical_of_mem_lexical hn
          refine .inl (D.excused_lexical (h.admits m ?_) hl)
          rw [Stmt.mentions]
          simp [mentionsStmt, hm]
    · exact hk n hn
  · simp [Stmt.mentions]
  · simp only [Stmt.uses, List.append_nil, List.mem_append] at hn ⊢
    rw [mem_usesStmt, mem_usesOption, mem_usesOption n _ update, Stmt.mem_uses]
    simpa [hb, or_assoc] using hn

/-! ### Expressions -/

section
variable {n : Nat} (ih : D.Runs n) {s : Store}
include ih

theorem Runs.evalPlace_succ (e : Expr) (env : Env) (g : D.Good s)
    (h : D.Ready s.scopes env (e.asTarget ++ e.mentions) (e.uses [])) :
    D.Holds (Script.evalPlace (n + 1) e env) s fun place t => D.ReadyPlace t.scopes env place := by
  have stray : Mention.stray ∈ e.asTarget →
      D.Holds (fail .invalidTarget) s fun place t => D.ReadyPlace t.scopes env place :=
    fun hm => holds_fail (D.allowed_stray (h.admits _ (List.mem_append_left _ hm)))
  cases e with
  | name word =>
      rw [Script.evalPlace]
      exact holds_pure g ⟨h.knows word (by simp [Expr.uses]), _, h.admits (.target word)
        (List.mem_append_left _ (List.mem_singleton_self _)), rfl⟩
  | member object key =>
      rw [Script.evalPlace]
      refine (ih.eval object env g (h.of_subset (fun _ hm => hm) fun _ hn => hn)).bind
        fun base t g' _ _ => ?_
      exact holds_pure g' trivial
  | index object key =>
      rw [Script.evalPlace]
      have h' := ready_append.mp (show D.Ready s.scopes env (object.mentions ++ key.mentions)
        (object.uses [] ++ key.uses []) from h)
      refine (ih.eval object env g h'.1).bind fun base t g₁ gr₁ _ => ?_
      refine (ih.eval key env g₁ (h'.2.mono gr₁)).bind fun k u g₂ gr₂ _ => ?_
      refine .reading (holds_pure g₂ trivial) ?_
      simp [seen]
  | _ =>
      rw [Script.evalPlace] <;> first | exact stray (List.mem_singleton_self _) | (intros; contradiction)

theorem Runs.eval_succ (e : Expr) (env : Env) (g : D.Good s)
    (h : D.Ready s.scopes env e.mentions (e.uses [])) : D.Safe (Script.eval (n + 1) e env) s := by
  cases e with
  | number x => rw [Script.eval]; exact safe_pure g _
  | string t => rw [Script.eval]; exact safe_pure g _
  | bool b => rw [Script.eval]; exact safe_pure g _
  | null => rw [Script.eval]; exact safe_pure g _
  | name word =>
      rw [Script.eval]
      exact safe_lookUp g h.toPlace (h.knows word (by simp [Expr.uses]))
  | array items =>
      rw [Script.eval]
      exact (ih.evalAll items env g h).bind fun values t g' _ _ =>
        safe_onHeap (onHeap_newArray _) g'
  | object fields =>
      rw [Script.eval]
      exact (ih.evalFields fields [] env g h).bind fun all t g' _ _ =>
        safe_onHeap (onHeap_newObject _) g'
  | function definition => rw [Script.eval]; exact safe_functionValue g h
  | member object key =>
      rw [Script.eval]
      exact (ih.eval object env g h).bind fun base t g' _ _ =>
        safe_onHeap (onHeap_getProperty base key) g'
  | index object key =>
      rw [Expr.mentions, Expr.uses, ready_append] at h
      rw [Script.eval]
      refine (ih.eval object env g h.1).bind fun base t g₁ gr₁ _ => ?_
      refine (ih.eval key env g₁ (h.2.mono gr₁)).bind fun k u g₂ gr₂ _ => ?_
      refine .reading (safe_onHeap (onHeap_getProperty base _) g₂) ?_
      simp [seen]
  | call callee arguments => rw [Script.eval]; exact ih.evalCall callee arguments env g h
  | unary op operand =>
      rcases typeof_name_or op operand with ⟨word, rfl, rfl⟩ | hn
      · rw [Script.eval]
        exact safe_typeOfName g h.toPlace
      · rw [Script.eval]
        · exact (ih.eval operand env g h).bind fun v t g' _ _ =>
            safe_onHeap (onHeap_applyUnary op v) g'
        · exact hn
  | update increment before target =>
      rw [Script.eval]
      refine (ih.evalPlace target env g h).bind fun place t g₁ gr₁ hp => ?_
      refine (safe_read g₁ (h.toPlace.mono gr₁) hp).bind fun v u g₂ gr₂ _ => ?_
      refine .reading ?_ (by simp [seen])
      exact (safe_write g₂ (hp.mono gr₂) _).bind fun _ w g₃ _ _ => safe_pure g₃ _
  | binary op left right =>
      rw [Expr.mentions, Expr.uses, ready_append] at h
      rw [Script.eval]
      refine (ih.eval left env g h.1).bind fun v t g₁ gr₁ _ => ?_
      refine (ih.eval right env g₁ (h.2.mono gr₁)).bind fun w u g₂ gr₂ _ => ?_
      exact safe_onHeap (onHeap_operate op v w) g₂
  | logical op left right =>
      rw [Expr.mentions, Expr.uses, ready_append] at h
      rw [Script.eval]
      refine (ih.eval left env g h.1).bind fun v t g₁ gr₁ _ => ?_
      split
      · exact safe_pure g₁ v
      · exact ih.eval right env g₁ (h.2.mono gr₁)
  | conditional test yes no =>
      rw [Expr.mentions, Expr.uses, ready_append, ready_append] at h
      obtain ⟨⟨ht, hy⟩, hn⟩ := h
      rw [Script.eval]
      refine (ih.eval test env g ht).bind fun v t g₁ gr₁ _ => ?_
      split
      · exact ih.eval yes env g₁ (hy.mono gr₁)
      · exact ih.eval no env g₁ (hn.mono gr₁)
  | assign op target value =>
      rw [Expr.mentions, Expr.uses, ready_append] at h
      rw [Script.eval]
      refine (ih.evalPlace target env g h.1).bind fun place t g₁ gr₁ hp => ?_
      have hv := h.2.mono gr₁
      cases op with
      | none =>
          refine (ih.eval value env g₁ hv).bind fun v u g₂ gr₂ _ => ?_
          exact (safe_write g₂ (hp.mono gr₂) v).bind fun _ w g₃ _ _ => safe_pure g₃ v
      | some op =>
          refine (safe_read g₁ hv.toPlace hp).bind fun current u g₂ gr₂ _ => ?_
          refine (ih.eval value env g₂ (hv.mono gr₂)).bind fun operand w g₃ gr₃ _ => ?_
          refine (safe_onHeap (onHeap_operate op current operand) g₃).bind fun v x g₄ gr₄ _ => ?_
          exact (safe_write g₄ (((hp.mono gr₂).mono gr₃).mono gr₄) v).bind
            fun _ y g₅ _ _ => safe_pure g₅ v

theorem Runs.evalAll_succ (es : List Expr) (env : Env) (g : D.Good s)
    (h : D.Ready s.scopes env (mentionsAll es) (usesAll [] es)) :
    D.Safe (Script.evalAll (n + 1) es env) s := by
  cases es with
  | nil => rw [Script.evalAll]; exact safe_pure g _
  | cons e rest =>
      rw [mentionsAll, usesAll, ready_append] at h
      rw [Script.evalAll]
      refine (ih.eval e env g h.1).bind fun v t g₁ gr₁ _ => ?_
      exact (ih.evalAll rest env g₁ (h.2.mono gr₁)).bind fun vs u g₂ _ _ => safe_pure g₂ _

theorem Runs.evalFields_succ (fields : List (String × Expr)) (done : Fields) (env : Env)
    (g : D.Good s) (h : D.Ready s.scopes env (mentionsFields fields) (usesFields [] fields)) :
    D.Safe (Script.evalFields (n + 1) fields done env) s := by
  cases fields with
  | nil => rw [Script.evalFields]; exact safe_pure g _
  | cons field rest =>
      obtain ⟨key, value⟩ := field
      rw [mentionsFields, usesFields, ready_append] at h
      rw [Script.evalFields]
      refine (ih.eval value env g h.1).bind fun v t g₁ gr₁ _ => ?_
      exact ih.evalFields rest (done.put key v) env g₁ (h.2.mono gr₁)

/-! ### Calls -/

theorem Runs.call_or_fail {f : Value} {arguments : List Value} (g : D.Good s) (what : String) :
    D.Safe (if f.isFunction then Script.call n f arguments else fail (.notCallable what)) s := by
  split
  · exact ih.call f arguments g
  · exact holds_fail (D.allowed_other nofun)

theorem Runs.evalCall_succ (callee : Expr) (arguments : List Expr) (env : Env) (g : D.Good s)
    (h : D.Ready s.scopes env (callee.mentions ++ mentionsAll arguments)
      (callee.uses [] ++ usesAll [] arguments)) :
    D.Safe (Script.evalCall (n + 1) callee arguments env) s := by
  obtain ⟨hc, ha⟩ := ready_append.mp h
  have general : D.Safe (Script.eval n callee env >>= fun f => Script.evalAll n arguments env >>=
      fun values => if f.isFunction then Script.call n f values
        else fail (.notCallable callee.describe)) s := by
    refine (ih.eval callee env g hc).bind fun f t g₁ gr₁ _ => ?_
    refine (ih.evalAll arguments env g₁ (ha.mono gr₁)).bind fun values u g₂ _ _ => ?_
    exact ih.call_or_fail g₂ _
  cases callee with
  | member object key =>
      rw [Script.evalCall]
      refine (ih.eval object env g hc).bind fun receiver t g₁ gr₁ _ => ?_
      refine (ih.evalAll arguments env g₁ (ha.mono gr₁)).bind fun values u g₂ _ _ => ?_
      exact ih.callMethod _ receiver key values g₂
  | index object key =>
      rw [Expr.mentions, Expr.uses, ready_append] at hc
      rw [Script.evalCall]
      refine (ih.eval object env g hc.1).bind fun receiver t g₁ gr₁ _ => ?_
      refine (ih.eval key env g₁ (hc.2.mono gr₁)).bind fun k u g₂ gr₂ _ => ?_
      refine .reading ?_ (by simp [seen])
      refine (ih.evalAll arguments env g₂ ((ha.mono gr₁).mono gr₂)).bind fun values v g₃ _ _ => ?_
      exact ih.callMethod _ receiver _ values g₃
  | _ => rw [Script.evalCall] <;> first | exact general | (intros; contradiction)

theorem Runs.callMethod_succ (described : String) (receiver : Value) (name : String)
    (arguments : List Value) (g : D.Good s) :
    D.Safe (Script.callMethod (n + 1) described receiver name arguments) s := by
  rw [Script.callMethod]
  split
  · exact safe_onHeap (ArrayMethod.onHeap_run _ _ _) g
  · exact safe_onHeap (StringMethod.onHeap_run _ _ _) g
  · exact safe_onHeap (NumberMethod.onHeap_run _ _ _) g
  · exact safe_pure g _
  · refine .reading ?_ (by simp [seen])
    refine (ih.visit _ receiver _ [] g).bind fun returned t g₁ _ _ => ?_
    exact safe_onHeap (ArrayVisit.onHeap_collect _ _ returned) g₁
  · refine (safe_onHeap (onHeap_getProperty receiver name) g).bind fun f t g₁ _ _ => ?_
    exact ih.call_or_fail g₁ _

theorem Runs.visit_succ (f whole : Value) (entries : List (Value × Value)) (done : List Value)
    (g : D.Good s) : D.Safe (Script.visit (n + 1) f whole entries done) s := by
  cases entries with
  | nil => rw [Script.visit]; exact safe_pure g _
  | cons entry rest =>
      rw [Script.visit]
      refine (ih.call f _ g).bind fun r t g₁ _ _ => ?_
      exact ih.visit f whole rest (r :: done) g₁

theorem Runs.call_succ (f : Value) (arguments : List Value) (g : D.Good s) :
    D.Safe (Script.call (n + 1) f arguments) s := by
  rw [Script.call]
  refine .reading ?_ (by simp [seen])
  cases f with
  | function r =>
      dsimp only
      split
      · rename_i d env e
        exact ih.invoke d env arguments g (g.callable e)
      · refine (ih.visit _ _ _ [] g).bind fun returned t g₁ _ _ => safe_pure g₁ _
      · refine (ih.visit _ _ _ [] g).bind fun returned t g₁ _ _ => ?_
        exact safe_onHeap (onHeap_newArray _) g₁
      · exact safe_onHeap (PlainNative.onHeap_run _ _) g
  | _ => exact holds_fail (D.allowed_other fun h => by cases h)

theorem Runs.invoke_succ (d : Definition) (env : Env) (arguments : List Value) (g : D.Good s)
    (h : D.Ready s.scopes env d.mentions (d.unnamed.uses [])) :
    D.Safe (Script.invoke (n + 1) d env arguments) s := by
  rw [Script.invoke]
  refine .reading ?_ rfl
  split
  · exact holds_fail (D.allowed_other nofun)
  · refine (holds_enter g h arguments).bind fun inner t g₁ _ hb => ?_
    have body : D.Safe (asCall (Script.execAll n d.body inner)) t :=
      safe_asCall (ih.execAll d.body inner (g₁.withHeap rfl rfl) hb)
    refine body.bind fun completion u g₂ _ _ => ?_
    cases completion <;> exact safe_pure g₂ _

/-! ### Statements -/

theorem Runs.exec_succ (stmt : Stmt) (env : Env) (g : D.Good s)
    (h : D.Ready s.scopes env stmt.mentions (stmt.uses [])) :
    D.Safe (Script.exec (n + 1) stmt env) s := by
  cases stmt with
  | expr e =>
      rw [Script.exec]
      exact (ih.eval e env g h).bind fun _ t g' _ _ => safe_pure g' _
  | declare kind bindings =>
      rw [Script.exec]
      exact (ih.execBindings kind bindings env g h).bind fun _ t g' _ _ => safe_pure g' _
  | function definition =>
      rw [Script.exec]
      exact (safe_declareFunction g h).bind fun _ t g' _ _ => safe_pure g' _
  | block body =>
      rw [Script.exec]
      refine (holds_newScope g false env).bind fun inner t g₁ _ hi => ?_
      obtain ⟨p, hk⟩ := h.toPlace.of_newScope hi
      refine ih.execAll body inner g₁ ?_
      -- what the body uses freely the block uses too, or it declares the name in its scope
      refine h.inside (lexicalNames body) p ?_ (fun _ => id) fun n hn hb => ?_
      · rintro n (hn | hn)
        · obtain ⟨m, hm, hl⟩ := isLexical_of_mem_lexicalNames hn
          exact .inl (D.excused_lexical (h.admits m hm) hl)
        · exact hk n hn
      · rw [Stmt.uses, mem_usesBody, List.append_nil]
        exact ⟨hn, hb⟩
  | branch test yes no =>
      rw [Stmt.mentions, Stmt.uses, ready_append, ready_append] at h
      obtain ⟨⟨ht, hy⟩, hn⟩ := h
      cases no with
      | none =>
          rw [Script.exec]
          refine (ih.eval test env g ht).bind fun v t g₁ gr₁ _ => ?_
          split
          · exact ih.exec yes env g₁ (hy.mono gr₁)
          · exact safe_pure g₁ _
      | some no =>
          rw [Script.exec]
          refine (ih.eval test env g ht).bind fun v t g₁ gr₁ _ => ?_
          split
          · exact ih.exec yes env g₁ (hy.mono gr₁)
          · exact ih.exec no env g₁ (hn.mono gr₁)
  | loop init test update body =>
      cases init with
      | none =>
          rw [Script.exec]
          refine (holds_newScope g false env).bind fun inner t g₁ _ hi => ?_
          obtain ⟨p, hk⟩ := h.toPlace.of_newScope hi
          exact ih.execLoop test update body inner g₁ (h.loop p hk).2
      | some init =>
          rw [Script.exec]
          refine (holds_newScope g false env).bind fun inner t g₁ _ hi => ?_
          obtain ⟨p, hk⟩ := h.toPlace.of_newScope hi
          obtain ⟨hinit, hr⟩ := h.loop p hk
          refine (ih.exec init inner g₁ hinit).bind fun _ u g₂ gr₂ _ => ?_
          exact ih.execLoop test update body inner g₂ (hr.mono gr₂)
  | forIn binding subject body =>
      rw [Stmt.mentions, Stmt.uses, ready_append, ready_append] at h
      obtain ⟨⟨hl, hs⟩, hb⟩ := h
      rw [Script.exec]
      refine (ih.eval subject env g hs).bind fun v t g₁ gr₁ _ => ?_
      refine .reading ?_ (by simp [seen])
      exact ih.execEach binding _ body env g₁ ((ready_append.mpr ⟨hl, hb⟩).mono gr₁)
  | forOf binding subject body =>
      rw [Stmt.mentions, Stmt.uses, ready_append, ready_append] at h
      obtain ⟨⟨hl, hs⟩, hb⟩ := h
      rw [Script.exec]
      refine (ih.eval subject env g hs).bind fun v t g₁ gr₁ _ => ?_
      refine (safe_onHeap (onHeap_loopItems v) g₁).bind fun items u g₂ gr₂ _ => ?_
      exact ih.execEach binding items body env g₂
        (((ready_append.mpr ⟨hl, hb⟩).mono gr₁).mono gr₂)
  | whileLoop test body =>
      rw [Script.exec]
      exact ih.execLoop (some test) none body env g (h.of_subset
        (by simp [Stmt.mentions, mentionsOption]) (by simp [Stmt.uses, usesOption]))
  | «break» => rw [Script.exec]; exact safe_pure g _
  | «continue» => rw [Script.exec]; exact safe_pure g _
  | «return» value =>
      cases value with
      | none => rw [Script.exec]; exact safe_pure g _
      | some e =>
          rw [Script.exec]
          exact (ih.eval e env g h).bind fun v t g' _ _ => safe_pure g' _
  | empty => rw [Script.exec]; exact safe_pure g _

theorem Runs.execAll_succ (body : List Stmt) (env : Env) (g : D.Good s)
    (h : D.Ready s.scopes env (mentionsBody body) (usesBody [] body)) :
    D.Safe (Script.execAll (n + 1) body env) s := by
  cases body with
  | nil => rw [Script.execAll]; exact safe_pure g _
  | cons first rest =>
      rw [mentionsBody, usesBody, ready_append] at h
      rw [Script.execAll]
      refine (ih.exec first env g h.1).bind fun completion t g₁ gr₁ _ => ?_
      cases completion with
      | normal => exact ih.execAll rest env g₁ (h.2.mono gr₁)
      | _ => exact safe_pure g₁ _

theorem Runs.execBindings_succ (kind : DeclKind) (bindings : List (String × Option Expr))
    (env : Env) (g : D.Good s)
    (h : D.Ready s.scopes env (mentionsBindings kind bindings) (usesBindings [] bindings)) :
    D.Safe (Script.execBindings (n + 1) kind bindings env) s := by
  cases bindings with
  | nil => rw [Script.execBindings]; exact safe_pure g _
  | cons first rest =>
      obtain ⟨name, value⟩ := first
      rw [mentionsBindings, usesBindings] at h
      have ha : D.admits (.declared kind name) := h.admits _ List.mem_cons_self
      obtain ⟨hv, hr⟩ := ready_append.mp
        (h.of_subset (fun _ hm => List.mem_cons_of_mem _ hm) fun _ hn => hn)
      cases value with
      | none =>
          rw [Script.execBindings]
          refine (safe_bindDeclared g h.toPlace ha none).bind fun _ t g₁ gr₁ _ => ?_
          exact ih.execBindings kind rest env g₁ (hr.mono gr₁)
      | some e =>
          rw [Script.execBindings]
          refine (ih.eval e env g hv).bind fun v t g₁ gr₁ _ => ?_
          refine (safe_bindDeclared g₁ (h.toPlace.mono gr₁) ha (some v)).bind fun _ u g₂ gr₂ _ => ?_
          exact ih.execBindings kind rest env g₂ ((hr.mono gr₁).mono gr₂)

theorem Runs.evalTest_succ (e : Option Expr) (env : Env) (g : D.Good s)
    (h : D.Ready s.scopes env (mentionsOption e) (usesOption [] e)) :
    D.Safe (Script.evalTest (n + 1) e env) s := by
  cases e with
  | none => rw [Script.evalTest]; exact safe_pure g _
  | some e =>
      rw [Script.evalTest]
      exact (ih.eval e env g h).bind fun v t g' _ _ => safe_pure g' _

theorem Runs.evalUpdate_succ (e : Option Expr) (env : Env) (g : D.Good s)
    (h : D.Ready s.scopes env (mentionsOption e) (usesOption [] e)) :
    D.Safe (Script.evalUpdate (n + 1) e env) s := by
  cases e with
  | none => rw [Script.evalUpdate]; exact safe_pure g _
  | some e =>
      rw [Script.evalUpdate]
      exact (ih.eval e env g h).bind fun v t g' _ _ => safe_pure g' _

theorem Runs.execLoop_succ (test update : Option Expr) (body : Stmt) (env : Env) (g : D.Good s)
    (h : D.Ready s.scopes env (mentionsOption test ++ mentionsOption update ++ body.mentions)
      (usesOption [] test ++ usesOption [] update ++ body.uses [])) :
    D.Safe (Script.execLoop (n + 1) test update body env) s := by
  obtain ⟨⟨ht, hu⟩, hb⟩ := And.imp_left ready_append.mp (ready_append.mp h)
  rw [Script.execLoop]
  refine (ih.evalTest test env g ht).bind fun goesOn t g₁ gr₁ _ => ?_
  split
  · refine (ih.exec body env g₁ (hb.mono gr₁)).bind fun completion u g₂ gr₂ _ => ?_
    have again : D.Safe (Script.evalUpdate n update env >>= fun _ =>
        Script.execLoop n test update body env) u := by
      refine (ih.evalUpdate update env g₂ ((hu.mono gr₁).mono gr₂)).bind fun _ v g₃ gr₃ _ => ?_
      exact ih.execLoop test update body env g₃ (((h.mono gr₁).mono gr₂).mono gr₃)
    cases completion with
    | «break» => exact safe_pure g₂ _
    | «return» v => exact safe_pure g₂ _
    | _ => exact again
  · exact safe_pure g₁ _

theorem Runs.execEach_succ (binding : LoopBinding) (items : List Value) (body : Stmt) (env : Env)
    (g : D.Good s) (h : D.Ready s.scopes env (binding.mentions ++ body.mentions)
      (usesLoop [] binding ++ body.uses (binding.lexical ++ []))) :
    D.Safe (Script.execEach (n + 1) binding items body env) s := by
  cases items with
  | nil => rw [Script.execEach]; exact safe_pure g _
  | cons item rest =>
      obtain ⟨hl, hb⟩ := ready_append.mp h
      rw [Script.execEach]
      refine (holds_bindRound g hl item).bind fun inner t g₁ gr₁ hi => ?_
      have hr : D.Ready t.scopes inner body.mentions (body.uses []) := by
        refine hb.inside binding.lexical hi.1 hi.2 (fun _ => id) fun n hn hl => ?_
        rw [Stmt.mem_uses, List.append_nil]
        exact ⟨hn, hl⟩
      refine (ih.exec body inner g₁ hr).bind fun completion u g₂ gr₂ _ => ?_
      have again : D.Safe (Script.execEach n binding rest body env) u :=
        ih.execEach binding rest body env g₂ ((h.mono gr₁).mono gr₂)
      cases completion with
      | «break» => exact safe_pure g₂ _
      | «return» v => exact safe_pure g₂ _
      | _ => exact again

theorem Runs.succ : D.Runs (n + 1) where
  eval := ih.eval_succ
  evalAll := ih.evalAll_succ
  evalFields := ih.evalFields_succ
  evalPlace := ih.evalPlace_succ
  evalCall := ih.evalCall_succ
  callMethod := ih.callMethod_succ
  visit := ih.visit_succ
  call := ih.call_succ
  invoke := ih.invoke_succ
  exec := ih.exec_succ
  execAll := ih.execAll_succ
  execBindings := ih.execBindings_succ
  execLoop := ih.execLoop_succ
  evalTest := ih.evalTest_succ
  evalUpdate := ih.evalUpdate_succ
  execEach := ih.execEach_succ

end

/-- **Every run keeps to a discipline.** -/
theorem runs : ∀ n, D.Runs n
  | 0 => runs_zero
  | n + 1 => (runs n).succ

end Discipline
end Stencil.Script
