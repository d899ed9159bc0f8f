import Stencil.Proofs.Twin.Names

/-!
# Twin — every run has a twin

From linked stores, a script that does not mention the hidden name runs alike.  `K.Twins n` says so
of all that goes at most `n` steps deep, one field for each function of the evaluator; `Twins.succ`
is the step, with one lemma for each field, and `twins` the induction.
-/

namespace Stencil.Script
namespace Link

variable {K : Link}

/-- Targets of an assignment that are the same, and not the hidden name. -/
inductive SamePlace (K : Link) : Place → Place → Prop where
  | name {word : String} (h : word ≠ K.hidden) : SamePlace K (.name word) (.name word)
  | property {v w : Value} (h : K.Same v w) (key : String) :
      SamePlace K (.property v key) (.property w key)

/-- Completions that are the same. -/
inductive SameCompletion (K : Link) : Completion → Completion → Prop where
  | normal : SameCompletion K .normal .normal
  | break : SameCompletion K .break .break
  | continue : SameCompletion K .continue .continue
  | return {v w : Value} (h : K.Same v w) : SameCompletion K (.return v) (.return w)

/-- Two runs of a statement that end alike. -/
abbrev TwinCompletions (K : Link) (m m' : Run Completion) (s s' : Store) : Prop :=
  K.Twin K.SameCompletion m m' s s'

/-- **Runs of `n` steps have twins.** -/
structure Twins (K : Link) (n : Nat) : Prop where
  eval : ∀ {s s'} e env, K.Linked s s' → K.Unmentioned e.mentions →
    K.TwinValues (eval n e env) (eval n e env) s s'
  evalAll : ∀ {s s'} es env, K.Linked s s' → K.Unmentioned (mentionsAll es) →
    K.Twin K.SameValues (evalAll n es env) (evalAll n es env) s s'
  evalFields : ∀ {s s'} fields {done done'} env, K.Linked s s' →
    K.Unmentioned (mentionsFields fields) → List.Forall₂ K.SameField done done' →
    K.Twin (List.Forall₂ K.SameField) (evalFields n fields done env)
      (evalFields n fields done' env) s s'
  evalPlace : ∀ {s s'} e env, K.Linked s s' → K.Unmentioned (e.asTarget ++ e.mentions) →
    K.Twin K.SamePlace (evalPlace n e env) (evalPlace n e env) s s'
  evalCall : ∀ {s s'} callee arguments env, K.Linked s s' →
    K.Unmentioned (callee.mentions ++ mentionsAll arguments) →
    K.TwinValues (evalCall n callee arguments env) (evalCall n callee arguments env) s s'
  callMethod : ∀ {s s'} described {receiver receiver'} method {arguments arguments'},
    K.Linked s s' → K.Same receiver receiver' → K.SameValues arguments arguments' →
    K.TwinValues (callMethod n described receiver method arguments)
      (callMethod n described receiver' method arguments') s s'
  visit : ∀ {s s'} {f f' whole whole' entries entries' done done'}, K.Linked s s' → K.Same f f' →
    K.Same whole whole' → List.Forall₂ K.SameEntry entries entries' → K.SameValues done done' →
    K.Twin K.SameValues (visit n f whole entries done) (visit n f' whole' entries' done') s s'
  call : ∀ {s s'} {f f' arguments arguments'}, K.Linked s s' → K.Same f f' →
    K.SameValues arguments arguments' → K.TwinValues (call n f arguments) (call n f' arguments') s s'
  invoke : ∀ {s s'} d env {arguments arguments'}, K.Linked s s' → K.Unmentioned d.mentions →
    K.SameValues arguments arguments' →
    K.TwinValues (invoke n d env arguments) (invoke n d env arguments') s s'
  exec : ∀ {s s'} stmt env, K.Linked s s' → K.Unmentioned stmt.mentions →
    K.TwinCompletions (exec n stmt env) (exec n stmt env) s s'
  execAll : ∀ {s s'} body env, K.Linked s s' → K.Unmentioned (mentionsBody body) →
    K.TwinCompletions (execAll n body env) (execAll n body env) s s'
  execBindings : ∀ {s s'} kind bindings env, K.Linked s s' →
    K.Unmentioned (mentionsBindings kind bindings) →
    K.TwinUnit (execBindings n kind bindings env) (execBindings n kind bindings env) s s'
  execLoop : ∀ {s s'} test update body env, K.Linked s s' →
    K.Unmentioned (mentionsOption test ++ mentionsOption update ++ body.mentions) →
    K.TwinCompletions (execLoop n test update body env) (execLoop n test update body env) s s'
  evalTest : ∀ {s s'} e env, K.Linked s s' → K.Unmentioned (mentionsOption e) →
    K.Twin Eq (evalTest n e env) (evalTest n e env) s s'
  evalUpdate : ∀ {s s'} e env, K.Linked s s' → K.Unmentioned (mentionsOption e) →
    K.TwinUnit (evalUpdate n e env) (evalUpdate n e env) s s'
  execEach : ∀ {s s'} binding {items items'} body env, K.Linked s s' →
    K.Unmentioned (binding.mentions ++ body.mentions) → K.SameValues items items' →
    K.TwinCompletions (execEach n binding items body env) (execEach n binding items' body env) s s'

theorem twins_zero : K.Twins 0 where
  eval _ _ _ _ := by rw [Script.eval]; exact twin_exhausted
  evalAll _ _ _ _ := by rw [Script.evalAll]; exact twin_exhausted
  evalFields _ _ _ _ _ _ _ := by rw [Script.evalFields, Script.evalFields]; exact twin_exhausted
  evalPlace _ _ _ _ := by rw [Script.evalPlace]; exact twin_exhausted
  evalCall _ _ _ _ _ := by rw [Script.evalCall]; exact twin_exhausted
  callMethod _ _ _ _ _ _ _ _ _ := by
    rw [Script.callMethod, Script.callMethod]; exact twin_exhausted
  visit _ _ _ _ _ := by rw [Script.visit, Script.visit]; exact twin_exhausted
  call _ _ _ := by rw [Script.call, Script.call]; exact twin_exhausted
  invoke _ _ _ _ _ _ _ := by rw [Script.invoke, Script.invoke]; exact twin_exhausted
  exec _ _ _ _ := by rw [Script.exec]; exact twin_exhausted
  execAll _ _ _ _ := by rw [Script.execAll]; exact twin_exhausted
  execBindings _ _ _ _ _ := by rw [Script.execBindings]; exact twin_exhausted
  execLoop _ _ _ _ _ _ := by rw [Script.execLoop]; exact twin_exhausted
  evalTest _ _ _ _ := by rw [Script.evalTest]; exact twin_exhausted
  evalUpdate _ _ _ _ := by rw [Script.evalUpdate]; exact twin_exhausted
  execEach _ _ _ _ _ _ _ _ := by rw [Script.execEach, Script.execEach]; exact twin_exhausted

/-! ### Places and closures -/

section
variable {s s' : Store} {env : Env}

theorem twin_read (l : K.Linked s s') {place place' : Place} (h : K.SamePlace place place') :
    K.TwinValues (place.read env) (place'.read env) s s' := by
  cases h with
  | name hn => exact twin_lookUp l hn
  | property h key => exact twin_getProperty l h key

theorem twin_write (l : K.Linked s s') {place place' : Place} (h : K.SamePlace place place')
    {v w : Value} (hv : K.Same v w) :
    K.TwinUnit (place.write env v) (place'.write env w) s s' := by
  cases h with
  | name hn => exact twin_assignName l hn hv
  | property h key => exact twin_setProperty l h key hv

theorem Linked.unmentioned_of_callable (l : K.Linked s s') {r : Ref} {d : Definition}
    (h : s.callable r = .closure d env) : K.Unmentioned d.mentions :=
  l.closures d env (Store.mem_functions h)

end

/-! ### Expressions -/

section
variable {n : Nat} (ih : K.Twins n) {s s' : Store}
include ih

theorem Twins.evalPlace_succ (e : Expr) (env : Env) (l : K.Linked s s')
    (h : K.Unmentioned (e.asTarget ++ e.mentions)) :
    K.Twin K.SamePlace (Script.evalPlace (n + 1) e env) (Script.evalPlace (n + 1) e env) s s' := by
  cases e with
  | name word =>
      rw [Script.evalPlace]
      refine twin_pure l (.name fun hn => ?_)
      exact h (.target word) List.mem_cons_self (congrArg some hn)
  | member object key =>
      rw [Script.evalPlace]
      exact (ih.eval object env l h).bind fun v w t t' hv l' => twin_pure l' (.property hv key)
  | index object key =>
      rw [Script.evalPlace]
      have h' : K.Unmentioned (object.mentions ++ key.mentions) := h
      rw [unmentioned_append] at h'
      refine (ih.eval object env l h'.1).bind fun v w t t' hv l₁ => ?_
      refine (ih.eval key env l₁ h'.2).bind fun k k' u u' hk l₂ => .reading ?_
      rw [l₂.key hk]
      exact twin_pure l₂ (.property hv _)
  | _ => rw [Script.evalPlace] <;> first | exact twin_fail rfl | (intros; contradiction)

theorem Twins.eval_succ (e : Expr) (env : Env) (l : K.Linked s s') (h : K.Unmentioned e.mentions) :
    K.TwinValues (Script.eval (n + 1) e env) (Script.eval (n + 1) e env) s s' := by
  cases e with
  | number x => rw [Script.eval]; exact twin_pure l (.number x)
  | string t => rw [Script.eval]; exact twin_pure l (.string t)
  | bool b => rw [Script.eval]; exact twin_pure l (.bool b)
  | null => rw [Script.eval]; exact twin_pure l .null
  | name word =>
      rw [Script.eval]
      exact twin_lookUp l fun hn => h (.read word) List.mem_cons_self (congrArg some hn)
  | array items =>
      rw [Script.eval]
      exact (ih.evalAll items env l h).bind fun vs ws t t' hv l' => twin_newArray l' hv
  | object fields =>
      rw [Script.eval]
      exact (ih.evalFields fields env l h .nil).bind fun all all' t t' hf l' => twin_newObject l' hf
  | function definition => rw [Script.eval]; exact twin_functionValue l h
  | member object key =>
      rw [Script.eval]
      exact (ih.eval object env l h).bind fun v w t t' hv l' => twin_getProperty l' hv key
  | index object key =>
      rw [Expr.mentions, unmentioned_append] at h
      rw [Script.eval]
      refine (ih.eval object env l h.1).bind fun v w t t' hv l₁ => ?_
      refine (ih.eval key env l₁ h.2).bind fun k k' u u' hk l₂ => .reading ?_
      rw [l₂.key hk]
      exact twin_getProperty l₂ hv _
  | call callee arguments => rw [Script.eval]; exact ih.evalCall callee arguments env l h
  | unary op operand =>
      rcases typeof_name_or op operand with ⟨word, rfl, rfl⟩ | hn
      · rw [Script.eval]
        exact twin_typeOfName l fun hn => h (.read word) List.mem_cons_self (congrArg some hn)
      · rw [Script.eval]
        · exact (ih.eval operand env l h).bind fun v w t t' hv l' => twin_applyUnary l' op hv
        · exact hn
  | update increment before target =>
      rw [Script.eval]
      refine (ih.evalPlace target env l h).bind fun place place' t t' hp l₁ => ?_
      refine (twin_read l₁ hp).bind fun v w u u' hv l₂ => .reading ?_
      dsimp only
      rw [l₂.number hv]
      exact (twin_write l₂ hp (.number _)).bind fun _ _ x x' _ l₃ => twin_pure l₃ (.number _)
  | binary op left right =>
      rw [Expr.mentions, unmentioned_append] at h
      rw [Script.eval]
      refine (ih.eval left env l h.1).bind fun v v' t t' hv l₁ => ?_
      exact (ih.eval right env l₁ h.2).bind fun w w' u u' hw l₂ => twin_operate l₂ op hv hw
  | logical op left right =>
      rw [Expr.mentions, unmentioned_append] at h
      rw [Script.eval]
      refine (ih.eval left env l h.1).bind fun v w t t' hv l₁ => ?_
      rw [hv.keepsLeft op]
      split
      · exact twin_pure l₁ hv
      · exact ih.eval right env l₁ h.2
  | conditional test yes no =>
      rw [Expr.mentions, unmentioned_append, unmentioned_append] at h
      obtain ⟨⟨ht, hy⟩, hn⟩ := h
      rw [Script.eval]
      refine (ih.eval test env l ht).bind fun v w t t' hv l₁ => ?_
      rw [hv.truthy]
      split
      · exact ih.eval yes env l₁ hy
      · exact ih.eval no env l₁ hn
  | assign op target value =>
      rw [Expr.mentions, unmentioned_append] at h
      rw [Script.eval]
      refine (ih.evalPlace target env l h.1).bind fun place place' t t' hp l₁ => ?_
      cases op with
      | none =>
          refine (ih.eval value env l₁ h.2).bind fun v w u u' hv l₂ => ?_
          exact (twin_write l₂ hp hv).bind fun _ _ x x' _ l₃ => twin_pure l₃ hv
      | some op =>
          refine (twin_read l₁ hp).bind fun v v' u u' hv l₂ => ?_
          refine (ih.eval value env l₂ h.2).bind fun w w' x x' hw l₃ => ?_
          refine (twin_operate l₃ op hv hw).bind fun r r' y y' hr l₄ => ?_
          exact (twin_write l₄ hp hr).bind fun _ _ z z' _ l₅ => twin_pure l₅ hr

theorem Twins.evalAll_succ (es : List Expr) (env : Env) (l : K.Linked s s')
    (h : K.Unmentioned (mentionsAll es)) :
    K.Twin K.SameValues (Script.evalAll (n + 1) es env) (Script.evalAll (n + 1) es env) s s' := by
  cases es with
  | nil => rw [Script.evalAll]; exact twin_pure l .nil
  | cons e rest =>
      rw [mentionsAll, unmentioned_append] at h
      rw [Script.evalAll]
      refine (ih.eval e env l h.1).bind fun v w t t' hv l₁ => ?_
      exact (ih.evalAll rest env l₁ h.2).bind fun vs ws u u' hvs l₂ => twin_pure l₂ (.cons hv hvs)

theorem Twins.evalFields_succ (fields : List (String × Expr)) {done done' : Fields} (env : Env)
    (l : K.Linked s s') (h : K.Unmentioned (mentionsFields fields))
    (hd : List.Forall₂ K.SameField done done') :
    K.Twin (List.Forall₂ K.SameField) (Script.evalFields (n + 1) fields done env)
      (Script.evalFields (n + 1) fields done' env) s s' := by
  cases fields with
  | nil => rw [Script.evalFields, Script.evalFields]; exact twin_pure l hd
  | cons field rest =>
      obtain ⟨key, value⟩ := field
      rw [mentionsFields, unmentioned_append] at h
      rw [Script.evalFields, Script.evalFields]
      refine (ih.eval value env l h.1).bind fun v w t t' hv l₁ => ?_
      exact ih.evalFields rest env l₁ h.2 (put_sameFields hd key hv)

/-! ### Calls -/

theorem Twins.call_or_fail {f f' : Value} {arguments arguments' : List Value} (l : K.Linked s s')
    (hf : K.Same f f') (ha : K.SameValues arguments arguments') (what : String) :
    K.TwinValues (if f.isFunction then Script.call n f arguments else fail (.notCallable what))
      (if f'.isFunction then Script.call n f' arguments' else fail (.notCallable what)) s s' := by
  rw [hf.isFunction]
  split
  · exact ih.call l hf ha
  · exact twin_fail rfl

theorem Twins.evalCall_succ (callee : Expr) (arguments : List Expr) (env : Env)
    (l : K.Linked s s') (h : K.Unmentioned (callee.mentions ++ mentionsAll arguments)) :
    K.TwinValues (Script.evalCall (n + 1) callee arguments env)
      (Script.evalCall (n + 1) callee arguments env) s s' := by
  obtain ⟨hc, ha⟩ := unmentioned_append.mp h
  have general : K.TwinValues
      (Script.eval n callee env >>= fun f => Script.evalAll n arguments env >>=
        fun values => if f.isFunction then Script.call n f values
          else fail (.notCallable callee.describe))
      (Script.eval n callee env >>= fun f => Script.evalAll n arguments env >>=
        fun values => if f.isFunction then Script.call n f values
          else fail (.notCallable callee.describe)) s s' := by
    refine (ih.eval callee env l hc).bind fun f f' t t' hf l₁ => ?_
    refine (ih.evalAll arguments env l₁ ha).bind fun vs ws u u' hvs l₂ => ?_
    exact ih.call_or_fail l₂ hf hvs _
  cases callee with
  | member object key =>
      rw [Script.evalCall]
      refine (ih.eval object env l hc).bind fun v w t t' hv l₁ => ?_
      refine (ih.evalAll arguments env l₁ ha).bind fun vs ws u u' hvs l₂ => ?_
      exact ih.callMethod _ key l₂ hv hvs
  | index object key =>
      rw [Expr.mentions, unmentioned_append] at hc
      rw [Script.evalCall]
      refine (ih.eval object env l hc.1).bind fun v w t t' hv l₁ => ?_
      refine (ih.eval key env l₁ hc.2).bind fun k k' u u' hk l₂ => .reading ?_
      dsimp only
      rw [l₂.key hk]
      refine (ih.evalAll arguments env l₂ ha).bind fun vs ws x x' hvs l₃ => ?_
      exact ih.callMethod _ _ l₃ hv hvs
  | _ => rw [Script.evalCall] <;> first | exact general | (intros; contradiction)

theorem Twins.callMethod_succ (described : String) {receiver receiver' : Value} (method : String)
    {arguments arguments' : List Value} (l : K.Linked s s') (hr : K.Same receiver receiver')
    (ha : K.SameValues arguments arguments') :
    K.TwinValues (Script.callMethod (n + 1) described receiver method arguments)
      (Script.callMethod (n + 1) described receiver' method arguments') s s' := by
  have held : K.TwinValues
      (getProperty receiver method >>= fun f =>
        if f.isFunction then Script.call n f arguments else fail (.notCallable described))
      (getProperty receiver' method >>= fun f =>
        if f.isFunction then Script.call n f arguments' else fail (.notCallable described))
      s s' :=
    (twin_getProperty l hr method).bind fun f f' t t' hf l₁ => ih.call_or_fail l₁ hf ha _
  rw [Script.callMethod, Script.callMethod]
  cases hr with
  | array hab =>
      simp only [Method.of?]
      cases ArrayMethod.ofName? method with
      | some m => exact twin_arrayMethod l m hab ha
      | none =>
          cases ArrayVisit.ofName? method with
          | none => exact held
          | some m =>
              have entries := l.entries (.array hab)
              refine .reading ((ih.visit l (ha.argument 0) (.array hab) entries .nil).bind
                fun returned returned' t t' hret l₁ => ?_)
              exact twin_collect l₁ m (List.rel_map (fun p q hp => hp.1) entries) hret
  | string t =>
      simp only [Method.of?]
      cases StringMethod.ofName? method with
      | some m => exact twin_stringMethod l m t ha
      | none => exact held
  | number x =>
      simp only [Method.of?]
      cases NumberMethod.ofName? method with
      | some m => exact twin_numberMethod l m x ha
      | none => exact held
  | bool b =>
      by_cases hm : method = "toString"
      · simp only [Method.of?, if_pos hm]
        exact twin_string l rfl
      · simp only [Method.of?, if_neg hm]
        exact held
  | _ => exact held

theorem Twins.visit_succ {f f' whole whole' : Value} {entries entries' : List (Value × Value)}
    {done done' : List Value} (l : K.Linked s s') (hf : K.Same f f') (hw : K.Same whole whole')
    (he : List.Forall₂ K.SameEntry entries entries') (hd : K.SameValues done done') :
    K.Twin K.SameValues (Script.visit (n + 1) f whole entries done)
      (Script.visit (n + 1) f' whole' entries' done') s s' := by
  cases he with
  | nil =>
      rw [Script.visit, Script.visit]
      exact twin_pure l (List.forall₂_reverse_iff.mpr hd)
  | cons hp he =>
      rw [Script.visit, Script.visit]
      refine (ih.call l hf (.cons hp.1 (.cons hp.2 (.cons hw .nil)))).bind
        fun r r' t t' hr l₁ => ?_
      exact ih.visit l₁ hf hw he (.cons hr hd)

theorem Twins.call_succ {f f' : Value} {arguments arguments' : List Value} (l : K.Linked s s')
    (hf : K.Same f f') (ha : K.SameValues arguments arguments') :
    K.TwinValues (Script.call (n + 1) f arguments) (Script.call (n + 1) f' arguments') s s' := by
  have text := l.text hf
  have whole := ha.argument 0
  have visited := ih.visit l (ha.argument 1) whole (l.entries whole) .nil
  rw [Script.call, Script.call]
  refine .reading ?_
  cases hf with
  | function r =>
      dsimp only
      rw [← l.callable r]
      split
      · rename_i d env e
        exact ih.invoke d env l (l.unmentioned_of_callable e) ha
      · exact visited.bind fun returned returned' t t' _ l₁ => twin_pure l₁ whole
      · exact visited.bind fun returned returned' t t' hr l₁ => twin_newArray l₁ hr
      · exact twin_plainNative l _ ha
  | _ => exact twin_fail (congrArg _ text)

theorem Twins.invoke_succ (d : Definition) (env : Env) {arguments arguments' : List Value}
    (l : K.Linked s s') (h : K.Unmentioned d.mentions) (ha : K.SameValues arguments arguments') :
    K.TwinValues (Script.invoke (n + 1) d env arguments) (Script.invoke (n + 1) d env arguments')
      s s' := by
  have hbody : K.Unmentioned (mentionsBody d.body) :=
    h.of_subset fun _ => Discipline.mem_mentions_of_mem_mentionsBody
  rw [Script.invoke, Script.invoke]
  refine .reading ?_
  rw [l.depth]
  split
  · exact twin_fail rfl
  · refine (twin_enter l h ha).bind fun inner inner' t t' hi l₁ => ?_
    subst hi
    have body : K.TwinCompletions (asCall (Script.execAll n d.body inner))
        (asCall (Script.execAll n d.body inner)) t t' :=
      twin_asCall (ih.execAll d.body inner { l₁ with depth := congrArg (· + 1) l₁.depth } hbody)
    refine body.bind fun c c' u u' hc l₂ => ?_
    cases hc with
    | «return» hv => exact twin_pure l₂ hv
    | _ => exact twin_pure l₂ .undefined

/-! ### Statements -/

theorem Twins.exec_succ (stmt : Stmt) (env : Env) (l : K.Linked s s')
    (h : K.Unmentioned stmt.mentions) :
    K.TwinCompletions (Script.exec (n + 1) stmt env) (Script.exec (n + 1) stmt env) s s' := by
  cases stmt with
  | expr e =>
      rw [Script.exec]
      exact (ih.eval e env l h).bind fun _ _ t t' _ l' => twin_pure l' .normal
  | declare kind bindings =>
      rw [Script.exec]
      exact (ih.execBindings kind bindings env l h).bind fun _ _ t t' _ l' => twin_pure l' .normal
  | function definition =>
      rw [Script.exec]
      exact (twin_declareFunction l h).bind fun _ _ t t' _ l' => twin_pure l' .normal
  | block body =>
      rw [Script.exec]
      refine (twin_newScope l false env).bind fun inner inner' t t' hi l₁ => ?_
      subst hi
      exact ih.execAll body inner l₁ h
  | branch test yes no =>
      rw [Stmt.mentions, unmentioned_append, unmentioned_append] at h
      obtain ⟨⟨ht, hy⟩, hn⟩ := h
      cases no with
      | none =>
          rw [Script.exec]
          refine (ih.eval test env l ht).bind fun v w t t' hv l₁ => ?_
          rw [hv.truthy]
          split
          · exact ih.exec yes env l₁ hy
          · exact twin_pure l₁ .normal
      | some no =>
          rw [Script.exec]
          refine (ih.eval test env l ht).bind fun v w t t' hv l₁ => ?_
          rw [hv.truthy]
          split
          · exact ih.exec yes env l₁ hy
          · exact ih.exec no env l₁ hn
  | loop init test update body =>
      rw [Stmt.mentions, List.append_assoc, List.append_assoc, unmentioned_append,
        ← List.append_assoc] at h
      cases init with
      | none =>
          rw [Script.exec]
          refine (twin_newScope l false env).bind fun inner inner' t t' hi l₁ => ?_
          subst hi
          exact ih.execLoop test update body inner l₁ h.2
      | some init =>
          rw [Script.exec]
          refine (twin_newScope l false env).bind fun inner inner' t t' hi l₁ => ?_
          subst hi
          refine (ih.exec init inner l₁ h.1).bind fun _ _ u u' _ l₂ => ?_
          exact ih.execLoop test update body inner l₂ h.2
  | forIn binding subject body =>
      rw [Stmt.mentions, unmentioned_append, unmentioned_append] at h
      obtain ⟨⟨hl, hs⟩, hb⟩ := h
      rw [Script.exec]
      refine (ih.eval subject env l hs).bind fun v w t t' hv l₁ => .reading ?_
      exact ih.execEach binding body env l₁ (unmentioned_append.mpr ⟨hl, hb⟩) (l₁.loopKeys hv)
  | forOf binding subject body =>
      rw [Stmt.mentions, unmentioned_append, unmentioned_append] at h
      obtain ⟨⟨hl, hs⟩, hb⟩ := h
      rw [Script.exec]
      refine (ih.eval subject env l hs).bind fun v w t t' hv l₁ => ?_
      refine (twin_loopItems l₁ hv).bind fun items items' u u' hi l₂ => ?_
      exact ih.execEach binding body env l₂ (unmentioned_append.mpr ⟨hl, hb⟩) hi
  | whileLoop test body =>
      rw [Script.exec]
      exact ih.execLoop (some test) none body env l
        (h.of_subset (by simp [Stmt.mentions, mentionsOption]))
  | «break» => rw [Script.exec]; exact twin_pure l .break
  | «continue» => rw [Script.exec]; exact twin_pure l .continue
  | «return» value =>
      cases value with
      | none => rw [Script.exec]; exact twin_pure l (.return .undefined)
      | some e =>
          rw [Script.exec]
          exact (ih.eval e env l h).bind fun v w t t' hv l' => twin_pure l' (.return hv)
  | empty => rw [Script.exec]; exact twin_pure l .normal

theorem Twins.execAll_succ (body : List Stmt) (env : Env) (l : K.Linked s s')
    (h : K.Unmentioned (mentionsBody body)) :
    K.TwinCompletions (Script.execAll (n + 1) body env) (Script.execAll (n + 1) body env) s s' := by
  cases body with
  | nil => rw [Script.execAll]; exact twin_pure l .normal
  | cons first rest =>
      rw [mentionsBody, unmentioned_append] at h
      rw [Script.execAll]
      refine (ih.exec first env l h.1).bind fun c c' t t' hc l₁ => ?_
      cases hc with
      | normal => exact ih.execAll rest env l₁ h.2
      | «break» => exact twin_pure l₁ .break
      | «continue» => exact twin_pure l₁ .continue
      | «return» hv => exact twin_pure l₁ (.return hv)

theorem Twins.execBindings_succ (kind : DeclKind) (bindings : List (String × Option Expr))
    (env : Env) (l : K.Linked s s') (h : K.Unmentioned (mentionsBindings kind bindings)) :
    K.TwinUnit (Script.execBindings (n + 1) kind bindings env)
      (Script.execBindings (n + 1) kind bindings env) s s' := by
  cases bindings with
  | nil => rw [Script.execBindings]; exact twin_pure l trivial
  | cons first rest =>
      obtain ⟨name, value⟩ := first
      have hn : name ≠ K.hidden := fun e => h (.declared kind name) List.mem_cons_self (congrArg some e)
      rw [mentionsBindings] at h
      obtain ⟨hv, hr⟩ := unmentioned_append.mp
        (h.of_subset fun _ hm => List.mem_cons_of_mem _ hm)
      cases value with
      | none =>
          rw [Script.execBindings]
          exact (twin_bindDeclared l hn kind .none).bind fun _ _ t t' _ l₁ =>
            ih.execBindings kind rest env l₁ hr
      | some e =>
          rw [Script.execBindings]
          refine (ih.eval e env l hv).bind fun v w t t' hvw l₁ => ?_
          exact (twin_bindDeclared l₁ hn kind (.some hvw)).bind fun _ _ u u' _ l₂ =>
            ih.execBindings kind rest env l₂ hr

theorem Twins.evalTest_succ (e : Option Expr) (env : Env) (l : K.Linked s s')
    (h : K.Unmentioned (mentionsOption e)) :
    K.Twin Eq (Script.evalTest (n + 1) e env) (Script.evalTest (n + 1) e env) s s' := by
  cases e with
  | none => rw [Script.evalTest]; exact twin_pure l rfl
  | some e =>
      rw [Script.evalTest]
      exact (ih.eval e env l h).bind fun v w t t' hv l' => twin_pure l' hv.truthy

theorem Twins.evalUpdate_succ (e : Option Expr) (env : Env) (l : K.Linked s s')
    (h : K.Unmentioned (mentionsOption e)) :
    K.TwinUnit (Script.evalUpdate (n + 1) e env) (Script.evalUpdate (n + 1) e env) s s' := by
  cases e with
  | none => rw [Script.evalUpdate]; exact twin_pure l trivial
  | some e =>
      rw [Script.evalUpdate]
      exact (ih.eval e env l h).bind fun v w t t' _ l' => twin_pure l' trivial

theorem Twins.execLoop_succ (test update : Option Expr) (body : Stmt) (env : Env)
    (l : K.Linked s s')
    (h : K.Unmentioned (mentionsOption test ++ mentionsOption update ++ body.mentions)) :
    K.TwinCompletions (Script.execLoop (n + 1) test update body env)
      (Script.execLoop (n + 1) test update body env) s s' := by
  obtain ⟨⟨ht, hu⟩, hb⟩ := And.imp_left unmentioned_append.mp (unmentioned_append.mp h)
  rw [Script.execLoop]
  refine (ih.evalTest test env l ht).bind fun goesOn goesOn' t t' hg l₁ => ?_
  subst hg
  split
  · refine (ih.exec body env l₁ hb).bind fun c c' u u' hc l₂ => ?_
    have again : K.TwinCompletions
        (Script.evalUpdate n update env >>= fun _ => Script.execLoop n test update body env)
        (Script.evalUpdate n update env >>= fun _ => Script.execLoop n test update body env) u u' :=
      (ih.evalUpdate update env l₂ hu).bind fun _ _ x x' _ l₃ =>
        ih.execLoop test update body env l₃ h
    cases hc with
    | «break» => exact twin_pure l₂ .normal
    | «return» hv => exact twin_pure l₂ (.return hv)
    | _ => exact again
  · exact twin_pure l₁ .normal

theorem Twins.execEach_succ (binding : LoopBinding) {items items' : List Value} (body : Stmt)
    (env : Env) (l : K.Linked s s') (h : K.Unmentioned (binding.mentions ++ body.mentions))
    (hi : K.SameValues items items') :
    K.TwinCompletions (Script.execEach (n + 1) binding items body env)
      (Script.execEach (n + 1) binding items' body env) s s' := by
  cases hi with
  | nil => rw [Script.execEach]; exact twin_pure l .normal
  | cons hv hi =>
      obtain ⟨hl, hb⟩ := unmentioned_append.mp h
      rw [Script.execEach, Script.execEach]
      refine (twin_bindRound l hl hv).bind fun inner inner' t t' hinner l₁ => ?_
      subst hinner
      refine (ih.exec body inner l₁ hb).bind fun c c' u u' hc l₂ => ?_
      have again := ih.execEach binding body env l₂ h hi
      cases hc with
      | «break» => exact twin_pure l₂ .normal
      | «return» hv => exact twin_pure l₂ (.return hv)
      | _ => exact again

theorem Twins.succ : K.Twins (n + 1) where
  eval := ih.eval_succ
  evalAll := ih.evalAll_succ
  evalFields := ih.evalFields_succ
  evalPlace := ih.evalPlace_succ
  evalCall := ih.evalCall_succ
  callMethod := ih.callMethod_succ
  visit := ih.visit_succ
  call := ih.call_succ
  invoke := ih.invoke_succ
  exec := ih.exec_succ
  execAll := ih.execAll_succ
  execBindings := ih.execBindings_succ
  execLoop := ih.execLoop_succ
  evalTest := ih.evalTest_succ
  evalUpdate := ih.evalUpdate_succ
  execEach := ih.execEach_succ

end

/-- **Every run has a twin** in every linked store. -/
theorem twins : ∀ n, K.Twins n
  | 0 => twins_zero
  | n + 1 => (twins n).succ

end Link
end Stencil.Script
