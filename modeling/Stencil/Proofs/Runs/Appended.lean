import Stencil.Proofs.Runs.Adds

/-!
# Runs — all that is added stays

`Appends K n` says of all that goes at most `n` steps deep, and does not rewrite the sink, that the
sink holds after it what it held before and what its trace has written.  Statements also tell how
they were left (`Leaves`): if by a `return` of the sink's name, what is returned is what the sink
holds.  `Appends.succ` is the step, with one lemma for each function of the evaluator, and `appends`
the induction.
-/

namespace Stencil.Script
open Discipline

namespace Sink

/-- What a `return` of the sink's name among some events says of how a statement ended. -/
def LeftBy (K : Sink) (events : List Event) (completion : Completion) (t : Store) : Prop :=
  .returned (some K.name) ∈ events →
    ∃ v, completion = .return v ∧ ∀ out, K.Shows t out → v = .string out

/-- **Statements that add to the sink**, and record how they are left. -/
def Leaves (K : Sink) (m : Run Completion) (s : Store) (events : List Event) : Prop :=
  K.Yields m s (appended events) (K.LeftBy events)

/-- **Runs of `n` steps add to the sink** what their traces say. -/
structure Appends (K : Sink) (n : Nat) : Prop where
  eval : ∀ {s} e env, K.Fair s → K.Inside env → K.name ∉ e.rewrites →
    K.Adds (eval n e env) s (Trace.eval K.name n e env s)
  evalAll : ∀ {s} es env, K.Fair s → K.Inside env → K.name ∉ rewritesAll es →
    K.Adds (evalAll n es env) s (Trace.evalAll K.name n es env s)
  evalFields : ∀ {s} fields done env, K.Fair s → K.Inside env → K.name ∉ rewritesFields fields →
    K.Adds (evalFields n fields done env) s (Trace.evalFields K.name n fields env s)
  evalPlace : ∀ {s} e env, K.Fair s → K.Inside env → K.name ∉ e.rewrites →
    K.Yields (evalPlace n e env) s (Trace.evalPlace K.name n e env s) fun place _ =>
      place = .name K.name → e.name? = some K.name
  evalCall : ∀ {s} callee arguments env, K.Fair s → K.Inside env →
    K.name ∉ callee.rewrites ++ rewritesAll arguments →
    K.Adds (evalCall n callee arguments env) s (Trace.evalCall K.name n callee arguments env s)
  callMethod : ∀ {s} described receiver method arguments, K.Fair s →
    K.Adds (callMethod n described receiver method arguments) s
      (Trace.callMethod K.name n receiver method arguments s)
  visit : ∀ {s} f whole entries done, K.Fair s →
    K.Adds (visit n f whole entries done) s (Trace.visit K.name n f whole entries s)
  call : ∀ {s} f arguments, K.Fair s →
    K.Adds (call n f arguments) s (Trace.call K.name n f arguments s)
  invoke : ∀ {s} d env arguments, K.Fair s → K.Inside env → K.name ∉ d.rewrites →
    K.Adds (invoke n d env arguments) s (appended (Trace.invoke K.name n d env arguments s))
  exec : ∀ {s} stmt env, K.Fair s → K.Inside env → K.name ∉ stmt.rewrites →
    K.Leaves (exec n stmt env) s (Trace.exec K.name n stmt env s)
  execAll : ∀ {s} body env, K.Fair s → K.Inside env → K.name ∉ rewritesBody body →
    K.Leaves (execAll n body env) s (Trace.execAll K.name n body env s)
  execBindings : ∀ {s} kind bindings env, K.Fair s → K.Inside env →
    K.name ∉ rewritesBindings bindings →
    K.Adds (execBindings n kind bindings env) s
      (Trace.execBindings K.name n kind bindings env s)
  execLoop : ∀ {s} test update body env, K.Fair s → K.Inside env →
    K.name ∉ rewritesOption test ++ (rewritesOption update ++ body.rewrites) →
    K.Leaves (execLoop n test update body env) s (Trace.execLoop K.name n test update body env s)
  evalTest : ∀ {s} e env, K.Fair s → K.Inside env → K.name ∉ rewritesOption e →
    K.Adds (evalTest n e env) s (Trace.evalTest K.name n e env s)
  evalUpdate : ∀ {s} e env, K.Fair s → K.Inside env → K.name ∉ rewritesOption e →
    K.Adds (evalUpdate n e env) s (Trace.evalUpdate K.name n e env s)
  execEach : ∀ {s} binding items body env, K.Fair s → K.Inside env →
    K.name ∉ binding.name :: body.rewrites →
    K.Leaves (execEach n binding items body env) s
      (Trace.execEach K.name n binding items body env s)

variable {K : Sink}

/-! ### How statements are left -/

section
variable {α : Type} {s : Store} {m : Run Completion}

theorem leaves_exhausted {events : List Event} : K.Leaves (throw .exhausted) s events :=
  yields_exhausted

theorem leaves_pure (g : K.Fair s) (c : Completion) : K.Leaves (pure c) s [] :=
  yields_pure g fun hm => by cases hm

theorem Leaves.adds {events : List Event} (h : K.Leaves m s events) :
    K.Adds m s (appended events) :=
  Yields.adds h

theorem leaves_return {v : Value} {name : Option String} (g : K.Fair s)
    (h : name = some K.name → ∀ out, K.Shows s out → v = .string out) :
    K.Leaves (pure (.return v)) s [.returned name] :=
  yields_pure g fun hm => ⟨v, rfl, h (Event.returned.inj (List.mem_singleton.mp hm)).symm⟩

/-- Only what comes last can leave a statement. -/
theorem Yields.leaves {m : Run α} {f : α → Run Completion} {l : List Append}
    {k : α → Store → List Event} {P : α → Store → Prop} (hm : K.Yields m s l P)
    (hf : ∀ a t, K.Fair t → P a t → K.Leaves (f a) t (k a t)) :
    K.Leaves (m >>= f) s (l.map .append ++ after m s k) := by
  intro c u e
  obtain ⟨a, t, h, e'⟩ := bind_eq_ok e
  have whole : K.Adds (m >>= f) s (l ++ after m s fun a t => appended (k a t)) :=
    hm.bind fun a t g p => (hf a t g p).adds
  obtain ⟨g, sh, -⟩ := whole c u e
  rw [appended_append, appended_map, appended_after]
  refine ⟨g, sh, fun hleft => ?_⟩
  obtain ⟨g₁, -, p⟩ := hm a t h
  obtain ⟨-, -, left⟩ := hf a t g₁ p c u e'
  rw [after_ok h] at hleft
  exact left ((List.mem_append.mp hleft).resolve_left (not_returned_map _ _))

/-- What is done before a statement without an addition. -/
theorem Yields.leavesFirst {m : Run α} {f : α → Run Completion} {k : α → Store → List Event}
    {P : α → Store → Prop} (hm : K.Yields m s [] P)
    (hf : ∀ a t, K.Fair t → P a t → K.Leaves (f a) t (k a t)) :
    K.Leaves (m >>= f) s (after m s k) :=
  hm.leaves hf

/-- A statement that is not left. -/
theorem Yields.leavesNot {m : Run α} {c : Completion} {l : List Append} {P : α → Store → Prop}
    (hm : K.Yields m s l P) : K.Leaves (m >>= fun _ => pure c) s (l.map .append) := by
  have h := hm.leaves (k := fun _ _ => []) fun _ _ g _ => leaves_pure g c
  rwa [after_nil, List.append_nil] at h

/-- **Statements in sequence**, where a `return` of the first one leaves the second out. -/
theorem Leaves.bind {f : Completion → Run Completion} {events : List Event}
    {k : Completion → Store → List Event} (hm : K.Leaves m s events)
    (hr : ∀ v, f (.return v) = pure (.return v))
    (hf : ∀ c t, K.Fair t → K.Leaves (f c) t (k c t)) :
    K.Leaves (m >>= f) s (events ++ after m s k) := by
  intro c u e
  obtain ⟨c', t, h, e'⟩ := bind_eq_ok e
  obtain ⟨g, sh, left⟩ := hm c' t h
  obtain ⟨g', sh', left'⟩ := hf c' t g c u e'
  rw [after_ok h]
  refine ⟨g', fun out ho => ?_, fun hleft => ?_⟩
  · rw [appended_append, written_append, ← String.append_assoc]
    exact sh' _ (sh out ho)
  · rcases List.mem_append.mp hleft with hleft | hleft
    · obtain ⟨v, rfl, hv⟩ := left hleft
      rw [hr] at e'
      cases e'
      exact ⟨v, rfl, hv⟩
    · exact left' hleft

theorem Fair.callable {env : Env} (g : K.Fair s) {r : Ref} {d : Definition}
    (h : s.callable r = .closure d env) : K.name ∉ d.rewrites ∧ K.Inside env :=
  g.closures d env (Store.mem_functions h)

end

/-! ### Expressions -/

theorem appends_zero : K.Appends 0 where
  eval _ _ _ _ _ := by rw [Script.eval]; exact yields_exhausted
  evalAll _ _ _ _ _ := by rw [Script.evalAll]; exact yields_exhausted
  evalFields _ _ _ _ _ _ := by rw [Script.evalFields]; exact yields_exhausted
  evalPlace _ _ _ _ _ := by rw [Script.evalPlace]; exact yields_exhausted
  evalCall _ _ _ _ _ _ := by rw [Script.evalCall]; exact yields_exhausted
  callMethod _ _ _ _ _ := by rw [Script.callMethod]; exact yields_exhausted
  visit _ _ _ _ _ := by rw [Script.visit]; exact yields_exhausted
  call _ _ _ := by rw [Script.call]; exact yields_exhausted
  invoke _ _ _ _ _ _ := by rw [Script.invoke]; exact yields_exhausted
  exec _ _ _ _ _ := by rw [Script.exec]; exact leaves_exhausted
  execAll _ _ _ _ _ := by rw [Script.execAll]; exact leaves_exhausted
  execBindings _ _ _ _ _ _ := by rw [Script.execBindings]; exact yields_exhausted
  execLoop _ _ _ _ _ _ _ := by rw [Script.execLoop]; exact leaves_exhausted
  evalTest _ _ _ _ _ := by rw [Script.evalTest]; exact yields_exhausted
  evalUpdate _ _ _ _ _ := by rw [Script.evalUpdate]; exact yields_exhausted
  execEach _ _ _ _ _ _ _ := by rw [Script.execEach]; exact leaves_exhausted

section
variable {n : Nat} (ih : K.Appends n) {s : Store} {env : Env}
include ih

theorem Appends.evalPlace_succ (e : Expr) (env : Env) (g : K.Fair s) (i : K.Inside env)
    (h : K.name ∉ e.rewrites) :
    K.Yields (Script.evalPlace (n + 1) e env) s (Trace.evalPlace K.name (n + 1) e env s)
      fun place _ => place = .name K.name → e.name? = some K.name := by
  cases e with
  | name word =>
      rw [Script.evalPlace, Trace.evalPlace] <;> try (intros; contradiction)
      refine yields_pure g fun hp => ?_
      cases hp
      rfl
  | member object key =>
      rw [Script.evalPlace, Trace.evalPlace]
      refine (ih.eval object env g i h).last fun base t g' _ => yields_pure g' fun hp => ?_
      cases hp
  | index object key =>
      rw [Expr.rewrites, List.mem_append, not_or] at h
      rw [Script.evalPlace, Trace.evalPlace]
      refine (ih.eval object env g i h.1).bind fun base t g₁ _ => ?_
      refine (ih.eval key env g₁ i h.2).last fun k u g₂ _ => .reading ?_
      refine yields_pure g₂ fun hp => ?_
      cases hp
  | _ =>
      rw [Script.evalPlace] <;> first | exact yields_fail _ | (intros; contradiction)

theorem Appends.eval_assign (op : Option BinaryOp) (target value : Expr) (env : Env)
    (g : K.Fair s) (i : K.Inside env) (h : K.name ∉ (Expr.assign op target value).rewrites) :
    K.Adds (Script.eval (n + 1) (.assign op target value) env) s
      (Trace.eval K.name (n + 1) (.assign op target value) env s) := by
  rw [Expr.rewrites, List.mem_append, List.mem_append, not_or, not_or] at h
  obtain ⟨hrewritten, htarget, hvalue⟩ := h
  have other {place : Place} (hop : op ≠ some .add)
      (hp : place = .name K.name → target.name? = some K.name) : place ≠ .name K.name := by
    intro he
    rw [Expr.rewritten, if_neg hop, hp he] at hrewritten
    exact hrewritten List.mem_cons_self
  cases op with
  | none =>
      rw [Script.eval, Trace.eval]
      refine (ih.evalPlace target env g i htarget).bind fun place t g₁ hp => ?_
      refine (ih.eval value env g₁ i hvalue).last fun v u g₂ _ => ?_
      exact (adds_write g₂ (other (fun he => by cases he) hp) v).last
        fun _ w g₃ _ => adds_pure g₃ v
  | some op =>
      rw [Script.eval, Trace.eval]
      refine (ih.evalPlace target env g i htarget).bind fun place t g₁ hp => ?_
      -- `+=` on the output appends to it, and no other assignment with an operator reaches it
      by_cases happend : place.isAppend K.name op = true
      · cases place with
        | property base key => cases happend
        | name word =>
            have hboth := happend
            rw [Place.isAppend, Bool.and_eq_true, beq_iff_eq, beq_iff_eq] at hboth
            obtain ⟨rfl, rfl⟩ := hboth
            simp only [happend, if_true]
            exact adds_append g₁ i (ih.eval value env g₁ i hvalue)
      · simp only [happend]
        refine (adds_read g₁ place).first fun current u g₂ _ => ?_
        refine (ih.eval value env g₂ i hvalue).last fun operand w g₃ _ => ?_
        refine (adds_onHeap (onHeap_operate op current operand) g₃).last fun v x g₄ _ => ?_
        refine (adds_write g₄ (fun he => ?_) v).last fun _ y g₅ _ => adds_pure g₅ v
        by_cases hop : op = .add
        · subst hop he
          simp [Place.isAppend] at happend
        · exact other (fun ho => hop (Option.some.inj ho)) hp he

theorem Appends.eval_succ (e : Expr) (env : Env) (g : K.Fair s) (i : K.Inside env)
    (h : K.name ∉ e.rewrites) :
    K.Adds (Script.eval (n + 1) e env) s (Trace.eval K.name (n + 1) e env s) := by
  cases e with
  | number x => simp only [Script.eval, Trace.eval]; exact adds_pure g _
  | string t => simp only [Script.eval, Trace.eval]; exact adds_pure g _
  | bool b => simp only [Script.eval, Trace.eval]; exact adds_pure g _
  | null => simp only [Script.eval, Trace.eval]; exact adds_pure g _
  | name word => simp only [Script.eval, Trace.eval]; exact adds_lookUp g
  | array items =>
      rw [Script.eval, Trace.eval]
      exact (ih.evalAll items env g i h).last fun values t g' _ =>
        adds_onHeap (onHeap_newArray _) g'
  | object fields =>
      rw [Script.eval, Trace.eval]
      exact (ih.evalFields fields [] env g i h).last fun all t g' _ =>
        adds_onHeap (onHeap_newObject _) g'
  | function definition =>
      simp only [Script.eval, Trace.eval]
      exact adds_functionValue g h i
  | member object key =>
      rw [Script.eval, Trace.eval]
      exact (ih.eval object env g i h).last fun base t g' _ =>
        adds_onHeap (onHeap_getProperty base key) g'
  | index object key =>
      rw [Expr.rewrites, List.mem_append, not_or] at h
      rw [Script.eval, Trace.eval]
      refine (ih.eval object env g i h.1).bind fun base t g₁ _ => ?_
      refine (ih.eval key env g₁ i h.2).last fun k u g₂ _ => .reading ?_
      exact adds_onHeap (onHeap_getProperty base _) g₂
  | call callee arguments =>
      rw [Script.eval, Trace.eval]
      exact ih.evalCall callee arguments env g i h
  | unary op operand =>
      rcases typeof_name_or op operand with ⟨word, rfl, rfl⟩ | hn
      · have none : Trace.eval K.name n (.name word) env s = [] := by cases n <;> simp [Trace.eval]
        rw [Script.eval, Trace.eval, none]
        exact adds_typeOfName g
      · rw [Script.eval, Trace.eval]
        · exact (ih.eval operand env g i h).last fun v t g' _ =>
            adds_onHeap (onHeap_applyUnary op v) g'
        · exact hn
  | update increment before target =>
      rw [Expr.rewrites, List.mem_append, not_or] at h
      rw [Script.eval, Trace.eval]
      refine (ih.evalPlace target env g i h.2).last fun place t g₁ hp => ?_
      refine (adds_read g₁ place).last fun v u g₂ _ => .reading ?_
      refine (adds_write g₂ (fun he => ?_) _).last fun _ w g₃ _ => adds_pure g₃ _
      rw [hp he] at h
      exact h.1 List.mem_cons_self
  | binary op left right =>
      rw [Expr.rewrites, List.mem_append, not_or] at h
      rw [Script.eval, Trace.eval]
      refine (ih.eval left env g i h.1).bind fun v t g₁ _ => ?_
      exact (ih.eval right env g₁ i h.2).last fun w u g₂ _ =>
        adds_onHeap (onHeap_operate op v w) g₂
  | logical op left right =>
      rw [Expr.rewrites, List.mem_append, not_or] at h
      rw [Script.eval, Trace.eval]
      refine (ih.eval left env g i h.1).bind fun v t g₁ _ => ?_
      split
      · exact adds_pure g₁ v
      · exact ih.eval right env g₁ i h.2
  | conditional test yes no =>
      rw [Expr.rewrites, List.mem_append, List.mem_append, not_or, not_or] at h
      rw [Script.eval, Trace.eval]
      refine (ih.eval test env g i h.1).bind fun v t g₁ _ => ?_
      split
      · exact ih.eval yes env g₁ i h.2.1
      · exact ih.eval no env g₁ i h.2.2
  | assign op target value => exact ih.eval_assign op target value env g i h

theorem Appends.evalAll_succ (es : List Expr) (env : Env) (g : K.Fair s) (i : K.Inside env)
    (h : K.name ∉ rewritesAll es) :
    K.Adds (Script.evalAll (n + 1) es env) s (Trace.evalAll K.name (n + 1) es env s) := by
  cases es with
  | nil => rw [Script.evalAll, Trace.evalAll]; exact adds_pure g _
  | cons e rest =>
      rw [rewritesAll, List.mem_append, not_or] at h
      rw [Script.evalAll, Trace.evalAll]
      refine (ih.eval e env g i h.1).bind fun v t g₁ _ => ?_
      exact (ih.evalAll rest env g₁ i h.2).last fun vs u g₂ _ => adds_pure g₂ _

theorem Appends.evalFields_succ (fields : List (String × Expr)) (done : Fields) (env : Env)
    (g : K.Fair s) (i : K.Inside env) (h : K.name ∉ rewritesFields fields) :
    K.Adds (Script.evalFields (n + 1) fields done env) s
      (Trace.evalFields K.name (n + 1) fields env s) := by
  cases fields with
  | nil => rw [Script.evalFields, Trace.evalFields]; exact adds_pure g _
  | cons field rest =>
      obtain ⟨key, value⟩ := field
      rw [rewritesFields, List.mem_append, not_or] at h
      rw [Script.evalFields, Trace.evalFields]
      exact (ih.eval value env g i h.1).bind fun v t g₁ _ =>
        ih.evalFields rest (done.put key v) env g₁ i h.2

/-! ### Calls -/

theorem Appends.call_or_fail {f : Value} {arguments : List Value} (g : K.Fair s) (what : String) :
    K.Adds (if f.isFunction then Script.call n f arguments else fail (.notCallable what)) s
      (Trace.call K.name n f arguments s) := by
  split
  · exact ih.call f arguments g
  · exact yields_fail _

theorem Appends.evalCall_succ (callee : Expr) (arguments : List Expr) (env : Env) (g : K.Fair s)
    (i : K.Inside env) (h : K.name ∉ callee.rewrites ++ rewritesAll arguments) :
    K.Adds (Script.evalCall (n + 1) callee arguments env) s
      (Trace.evalCall K.name (n + 1) callee arguments env s) := by
  rw [List.mem_append, not_or] at h
  obtain ⟨hc, ha⟩ := h
  have general : K.Adds (Script.eval n callee env >>= fun f => Script.evalAll n arguments env >>=
      fun values => if f.isFunction then Script.call n f values
        else fail (.notCallable callee.describe)) s
      (Trace.eval K.name n callee env s ++ after (Script.eval n callee env) s fun f s =>
        Trace.evalAll K.name n arguments env s ++ after (Script.evalAll n arguments env) s
          fun values s => Trace.call K.name n f values s) := by
    refine (ih.eval callee env g i hc).bind fun f t g₁ _ => ?_
    exact (ih.evalAll arguments env g₁ i ha).bind fun values u g₂ _ => ih.call_or_fail g₂ _
  cases callee with
  | member object key =>
      rw [Script.evalCall, Trace.evalCall]
      refine (ih.eval object env g i hc).bind fun receiver t g₁ _ => ?_
      exact (ih.evalAll arguments env g₁ i ha).bind fun values u g₂ _ =>
        ih.callMethod _ receiver key values g₂
  | index object key =>
      rw [Expr.rewrites, List.mem_append, not_or] at hc
      rw [Script.evalCall, Trace.evalCall]
      refine (ih.eval object env g i hc.1).bind fun receiver t g₁ _ => ?_
      refine (ih.eval key env g₁ i hc.2).bind fun k u g₂ _ => .reading ?_
      exact (ih.evalAll arguments env g₂ i ha).bind fun values w g₃ _ =>
        ih.callMethod _ receiver _ values g₃
  | _ =>
      rw [Script.evalCall, Trace.evalCall] <;> first | exact general | (intros; contradiction)

theorem Appends.callMethod_succ (described : String) (receiver : Value) (method : String)
    (arguments : List Value) (g : K.Fair s) :
    K.Adds (Script.callMethod (n + 1) described receiver method arguments) s
      (Trace.callMethod K.name (n + 1) receiver method arguments s) := by
  rw [Script.callMethod, Trace.callMethod]
  cases Method.of? receiver method with
  | none =>
      exact (adds_onHeap (onHeap_getProperty receiver method) g).first fun f t g₁ _ =>
        ih.call_or_fail g₁ _
  | some m =>
      cases m with
      | array a m => exact adds_onHeap (ArrayMethod.onHeap_run _ _ _) g
      | string t m => exact adds_onHeap (StringMethod.onHeap_run _ _ _) g
      | number x m => exact adds_onHeap (NumberMethod.onHeap_run _ _ _) g
      | boolText b => exact adds_pure g _
      | visit a m =>
          refine .reading ?_
          exact (ih.visit _ receiver _ [] g).last fun returned t g₁ _ =>
            adds_onHeap (ArrayVisit.onHeap_collect _ _ returned) g₁

theorem Appends.visit_succ (f whole : Value) (entries : List (Value × Value)) (done : List Value)
    (g : K.Fair s) : K.Adds (Script.visit (n + 1) f whole entries done) s
      (Trace.visit K.name (n + 1) f whole entries s) := by
  cases entries with
  | nil => rw [Script.visit, Trace.visit]; exact adds_pure g _
  | cons entry rest =>
      obtain ⟨v, key⟩ := entry
      rw [Script.visit, Trace.visit]
      exact (ih.call f _ g).bind fun r t g₁ _ => ih.visit f whole rest (r :: done) g₁

theorem Appends.call_succ (f : Value) (arguments : List Value) (g : K.Fair s) :
    K.Adds (Script.call (n + 1) f arguments) s (Trace.call K.name (n + 1) f arguments s) := by
  cases f with
  | function r =>
      rw [Script.call, Trace.call]
      refine .reading ?_
      dsimp only
      cases e : s.callable r with
      | closure d env =>
          obtain ⟨h, i⟩ := g.callable e
          exact ih.invoke d env arguments g i h
      | native m =>
          cases m with
          | each => exact (ih.visit _ _ _ [] g).last fun returned t g₁ _ => adds_pure g₁ _
          | map =>
              exact (ih.visit _ _ _ [] g).last fun returned t g₁ _ =>
                adds_onHeap (onHeap_newArray _) g₁
          | plain m => exact adds_onHeap (PlainNative.onHeap_run _ _) g
  | _ => rw [Script.call]; exact .reading (yields_fail _)

/-- What a body adds is added by the call. -/
theorem Appends.invoke_succ (d : Definition) (env : Env) (arguments : List Value) (g : K.Fair s)
    (i : K.Inside env) (h : K.name ∉ d.rewrites) :
    K.Adds (Script.invoke (n + 1) d env arguments) s
      (appended (Trace.invoke K.name (n + 1) d env arguments s)) := by
  have hbody : K.name ∉ rewritesBody d.body := by
    rw [d.rewrites_eq, List.mem_append, not_or] at h
    exact h.2
  rw [Script.invoke, Trace.invoke]
  refine .reading ?_
  split
  · exact yields_fail _
  · rw [appended_after]
    refine (yields_enter g h i arguments).first fun inner t g₁ i₁ => ?_
    have deeper : K.Fair { t with depth := t.depth + 1 } := ⟨g₁.size, g₁.alone, g₁.closures⟩
    refine (adds_asCall (ih.execAll d.body inner deeper i₁ hbody).adds fun _ _ => id).last
      fun completion u g₂ _ => ?_
    cases completion <;> exact adds_pure g₂ _

/-! ### Statements -/

/-- A `return` of the sink's name returns what the sink holds. -/
theorem Appends.eval_returned (e : Expr) (g : K.Fair s) (i : K.Inside env)
    (h : K.name ∉ e.rewrites) :
    K.Yields (Script.eval n e env) s (Trace.eval K.name n e env s) fun v t =>
      e.name? = some K.name → ∀ out, K.Shows t out → v = .string out := by
  intro v t hv
  obtain ⟨g', sh, -⟩ := ih.eval e env g i h v t hv
  refine ⟨g', sh, fun hn => ?_⟩
  cases e with
  | name word =>
      obtain rfl : word = K.name := Option.some.inj hn
      cases n with
      | zero => rw [Script.eval] at hv; cases hv
      | succ n =>
          rw [Script.eval] at hv
          obtain ⟨rfl, hcurrent⟩ := g.lookUp_eq_ok i hv
          exact hcurrent
  | _ => cases hn

theorem Appends.exec_succ (stmt : Stmt) (env : Env) (g : K.Fair s) (i : K.Inside env)
    (h : K.name ∉ stmt.rewrites) :
    K.Leaves (Script.exec (n + 1) stmt env) s (Trace.exec K.name (n + 1) stmt env s) := by
  cases stmt with
  | expr e =>
      rw [Script.exec, Trace.exec]
      exact (ih.eval e env g i h).leavesNot
  | declare kind bindings =>
      rw [Script.exec, Trace.exec]
      exact (ih.execBindings kind bindings env g i h).leavesNot
  | function definition =>
      obtain ⟨hn, hd⟩ := not_mem_function h
      simp only [Script.exec, Trace.exec]
      exact (adds_declareFunction g hn hd i).leavesNot
  | block body =>
      rw [Script.exec, Trace.exec]
      exact (yields_newScope g i false).leavesFirst fun inner t g₁ i₁ =>
        ih.execAll body inner g₁ i₁ h
  | branch test yes no =>
      rw [Stmt.rewrites, List.mem_append, List.mem_append, not_or, not_or] at h
      obtain ⟨ht, hy, hn⟩ := h
      cases no with
      | none =>
          rw [Script.exec, Trace.exec]
          refine (ih.eval test env g i ht).leaves fun v t g₁ _ => ?_
          split
          · exact ih.exec yes env g₁ i hy
          · exact leaves_pure g₁ _
      | some no =>
          rw [Script.exec, Trace.exec]
          refine (ih.eval test env g i ht).leaves fun v t g₁ _ => ?_
          split
          · exact ih.exec yes env g₁ i hy
          · exact ih.exec no env g₁ i hn
  | loop init test update body =>
      rw [Stmt.rewrites, List.mem_append, not_or] at h
      cases init with
      | none =>
          rw [Script.exec, Trace.exec]
          exact (yields_newScope g i false).leavesFirst fun inner t g₁ i₁ =>
            ih.execLoop test update body inner g₁ i₁ h.2
      | some init =>
          rw [Script.exec, Trace.exec]
          refine (yields_newScope g i false).leavesFirst fun inner t g₁ i₁ => ?_
          exact (ih.exec init inner g₁ i₁ h.1).adds.leaves fun _ u g₂ _ =>
            ih.execLoop test update body inner g₂ i₁ h.2
  | forIn binding subject body =>
      rw [Stmt.rewrites, List.mem_cons, List.mem_append, not_or, not_or] at h
      obtain ⟨hn, hs, hb⟩ := h
      rw [Script.exec, Trace.exec]
      refine (ih.eval subject env g i hs).leaves fun v t g₁ _ => ?_
      exact ih.execEach binding _ body env g₁ i (List.not_mem_cons_of_ne_of_not_mem hn hb)
  | forOf binding subject body =>
      rw [Stmt.rewrites, List.mem_cons, List.mem_append, not_or, not_or] at h
      obtain ⟨hn, hs, hb⟩ := h
      rw [Script.exec, Trace.exec]
      refine (ih.eval subject env g i hs).leaves fun v t g₁ _ => ?_
      refine (adds_onHeap (onHeap_loopItems v) g₁).leavesFirst fun items u g₂ _ => ?_
      exact ih.execEach binding items body env g₂ i (List.not_mem_cons_of_ne_of_not_mem hn hb)
  | whileLoop test body =>
      rw [Script.exec, Trace.exec]
      exact ih.execLoop (some test) none body env g i h
  | «break» => simp only [Script.exec, Trace.exec]; exact leaves_pure g _
  | «continue» => simp only [Script.exec, Trace.exec]; exact leaves_pure g _
  | «return» value =>
      cases value with
      | none =>
          rw [Script.exec, Trace.exec]
          exact leaves_return g fun hn => by cases hn
      | some e =>
          rw [Script.exec, Trace.exec]
          exact (ih.eval_returned e g i h).leaves fun v t g' hv => leaves_return g' hv
  | empty => simp only [Script.exec, Trace.exec]; exact leaves_pure g _

theorem Appends.execAll_succ (body : List Stmt) (env : Env) (g : K.Fair s) (i : K.Inside env)
    (h : K.name ∉ rewritesBody body) :
    K.Leaves (Script.execAll (n + 1) body env) s (Trace.execAll K.name (n + 1) body env s) := by
  cases body with
  | nil => rw [Script.execAll, Trace.execAll]; exact leaves_pure g _
  | cons first rest =>
      rw [rewritesBody, List.mem_append, not_or] at h
      rw [Script.execAll, Trace.execAll]
      refine (ih.exec first env g i h.1).bind (fun v => rfl) fun completion t g₁ => ?_
      cases completion with
      | normal => exact ih.execAll rest env g₁ i h.2
      | _ => exact leaves_pure g₁ _

theorem Appends.execBindings_succ (kind : DeclKind) (bindings : List (String × Option Expr))
    (env : Env) (g : K.Fair s) (i : K.Inside env) (h : K.name ∉ rewritesBindings bindings) :
    K.Adds (Script.execBindings (n + 1) kind bindings env) s
      (Trace.execBindings K.name (n + 1) kind bindings env s) := by
  cases bindings with
  | nil => rw [Script.execBindings, Trace.execBindings]; exact adds_pure g _
  | cons first rest =>
      obtain ⟨own, value⟩ := first
      rw [rewritesBindings, List.mem_cons, List.mem_append, not_or, not_or] at h
      obtain ⟨hn, hv, hrest⟩ := h
      cases value with
      | none =>
          rw [Script.execBindings, Trace.execBindings]
          exact (adds_bindDeclared g (Ne.symm hn) kind none).first fun _ t g₁ _ =>
            ih.execBindings kind rest env g₁ i hrest
      | some e =>
          rw [Script.execBindings, Trace.execBindings]
          refine (ih.eval e env g i hv).bind fun v t g₁ _ => ?_
          exact (adds_bindDeclared g₁ (Ne.symm hn) kind (some v)).first fun _ u g₂ _ =>
            ih.execBindings kind rest env g₂ i hrest

theorem Appends.evalTest_succ (e : Option Expr) (env : Env) (g : K.Fair s) (i : K.Inside env)
    (h : K.name ∉ rewritesOption e) :
    K.Adds (Script.evalTest (n + 1) e env) s (Trace.evalTest K.name (n + 1) e env s) := by
  cases e with
  | none => rw [Script.evalTest, Trace.evalTest]; exact adds_pure g _
  | some e =>
      rw [Script.evalTest, Trace.evalTest]
      exact (ih.eval e env g i h).last fun v t g' _ => adds_pure g' _

theorem Appends.evalUpdate_succ (e : Option Expr) (env : Env) (g : K.Fair s) (i : K.Inside env)
    (h : K.name ∉ rewritesOption e) :
    K.Adds (Script.evalUpdate (n + 1) e env) s (Trace.evalUpdate K.name (n + 1) e env s) := by
  cases e with
  | none => rw [Script.evalUpdate, Trace.evalUpdate]; exact adds_pure g _
  | some e =>
      rw [Script.evalUpdate, Trace.evalUpdate]
      exact (ih.eval e env g i h).last fun v t g' _ => adds_pure g' _

theorem Appends.execLoop_succ (test update : Option Expr) (body : Stmt) (env : Env)
    (g : K.Fair s) (i : K.Inside env)
    (h : K.name ∉ rewritesOption test ++ (rewritesOption update ++ body.rewrites)) :
    K.Leaves (Script.execLoop (n + 1) test update body env) s
      (Trace.execLoop K.name (n + 1) test update body env s) := by
  have hparts := h
  rw [List.mem_append, List.mem_append, not_or, not_or] at hparts
  obtain ⟨ht, hu, hb⟩ := hparts
  rw [Script.execLoop, Trace.execLoop]
  refine (ih.evalTest test env g i ht).leaves fun goesOn t g₁ _ => ?_
  split
  · refine (ih.exec body env g₁ i hb).bind (fun v => rfl) fun completion u g₂ => ?_
    have again : K.Leaves (Script.evalUpdate n update env >>= fun _ =>
        Script.execLoop n test update body env) u
        ((Trace.evalUpdate K.name n update env u).map .append ++
          after (Script.evalUpdate n update env) u fun _ w =>
            Trace.execLoop K.name n test update body env w) :=
      (ih.evalUpdate update env g₂ i hu).leaves fun _ w g₃ _ =>
        ih.execLoop test update body env g₃ i h
    cases completion with
    | «break» => exact leaves_pure g₂ _
    | «return» v => exact yields_pure g₂ fun hm => by cases hm
    | _ => exact again
  · exact leaves_pure g₁ _

theorem Appends.execEach_succ (binding : LoopBinding) (items : List Value) (body : Stmt)
    (env : Env) (g : K.Fair s) (i : K.Inside env) (h : K.name ∉ binding.name :: body.rewrites) :
    K.Leaves (Script.execEach (n + 1) binding items body env) s
      (Trace.execEach K.name (n + 1) binding items body env s) := by
  cases items with
  | nil => rw [Script.execEach, Trace.execEach]; exact leaves_pure g _
  | cons item rest =>
      obtain ⟨hn, hb⟩ := List.ne_and_not_mem_of_not_mem_cons h
      rw [Script.execEach, Trace.execEach]
      refine (yields_bindRound g (Ne.symm hn) i item).leavesFirst fun inner t g₁ i₁ => ?_
      refine (ih.exec body inner g₁ i₁ hb).bind (fun v => rfl) fun completion u g₂ => ?_
      have again := ih.execEach binding rest body env g₂ i h
      cases completion with
      | «break» => exact leaves_pure g₂ _
      | «return» v => exact leaves_pure g₂ _
      | _ => exact again

theorem Appends.succ : K.Appends (n + 1) where
  eval := ih.eval_succ
  evalAll := ih.evalAll_succ
  evalFields := ih.evalFields_succ
  evalPlace := ih.evalPlace_succ
  evalCall := ih.evalCall_succ
  callMethod := ih.callMethod_succ
  visit := ih.visit_succ
  call := ih.call_succ
  invoke := ih.invoke_succ
  exec := ih.exec_succ
  execAll := ih.execAll_succ
  execBindings := ih.execBindings_succ
  execLoop := ih.execLoop_succ
  evalTest := ih.evalTest_succ
  evalUpdate := ih.evalUpdate_succ
  execEach := ih.execEach_succ

end

/-- **Every run adds to the sink** what its trace says. -/
theorem appends : ∀ n, K.Appends n
  | 0 => appends_zero
  | n + 1 => (appends n).succ

end Sink

end Stencil.Script
