import Stencil.Proofs.Jobs.Constants

/-!
# Jobs — activations

An activation is a body of a script function that is being carried out.  `Job.moments` is the log of a
job in which every entry stands with the activations that are open at it; the store plays no part in
which they are.

* `Definition.entries_moments`: apart from the activations it is the log.
* `Course.Plain`: only calls of script functions open activations.
* `call_depth_exact`: the depth of a store is the number of open activations, and a call that would
  open one too many ends the run.
-/

namespace Stencil.Script

/-- **Activations**: a body that is being carried out, and the scope it was begun in. -/
structure Activation where
  body : List Stmt
  env : Env

/-- **Moments**: an entry of a log with the activations that are open at it, the innermost first. -/
structure Moment where
  active : List Activation
  entry : Entry

/-- The moments of a course, by the runs and the moments of its jobs. -/
def Course.moments {α : Type} (runs : (j : Job) → Run j.Result)
    (moments : List Activation → Job → Store → List Moment) (active : List Activation) :
    Course α → Store → List Moment
  | ends _, _ => []
  | step o next, s =>
    ⟨active, .op o s⟩ :: Script.after o.run s fun a t => (next a).moments runs moments active t
  | part j next, s =>
    moments active j s ++
      Script.after (runs j) s fun a t => (next a).moments runs moments active t
  | inCall stmts env next, s =>
    moments (⟨stmts, env⟩ :: active) (.execAll stmts env) s.deeper ++
      Script.after (asCall (runs (.execAll stmts env))) s fun c t =>
        (next c).moments runs moments active t

/-- **The moments of a job** that is begun where the given activations are open. -/
def Job.moments : (steps : Nat) → List Activation → Job → Store → List Moment
  | 0, active, j, s => [⟨active, .job 0 j s⟩]
  | n + 1, active, j, s =>
    ⟨active, .job (n + 1) j s⟩ :: (Course.ofJob j).moments (Job.run n) (Job.moments n) active s

/-- **The moments of a call from outside**, once its data is made. -/
def Definition.moments (d : Definition) (steps : Nat) (data : Json.Document) : List Moment :=
  Script.after (importDocument data) Store.initial fun v s =>
    Job.moments steps [] (.invoke d globalEnv [v, helper]) s

/-! ### Moments and logs -/

section
variable {α β γ δ : Type} {m : Run α} {s : Store}

theorem map_after (f : γ → δ) (next : α → Store → List γ) :
    (after m s next).map f = after m s fun a t => (next a t).map f := by
  rw [after, after]
  split <;> rfl

theorem after_bind {k : α → Run β} (next : β → Store → List γ) :
    after (m >>= k) s next = after m s fun a t => after (k a) t next := by
  rw [after, after, run_bind]
  cases m s <;> rfl

theorem after_append {l : α → Store → List γ} (next : α → Store → List γ) :
    (after m s fun a t => l a t ++ next a t) = after m s l ++ after m s next := by
  rw [after, after, after]
  cases m s <;> rfl

theorem Course.entries_moments {n : Nat}
    (ih : ∀ active j s, (Job.moments n active j s).map Moment.entry = Job.log n j s)
    (active : List Activation) (p : Course α) : ∀ s,
      (p.moments (Job.run n) (Job.moments n) active s).map Moment.entry =
        p.log (Job.run n) (Job.log n) s := by
  induction p with
  | ends a => exact fun _ => rfl
  | step o next ihp => intro s; simp [moments, log, map_after, ihp]
  | part j next ihp => intro s; simp [moments, log, map_after, ih, ihp]
  | inCall stmts env next ihp => intro s; simp [moments, log, map_after, ih, ihp]

theorem Job.entries_moments : ∀ (n : Nat) (active : List Activation) (j : Job) (s : Store),
    (Job.moments n active j s).map Moment.entry = Job.log n j s
  | 0, _, _, _ => rfl
  | n + 1, active, j, s => by
      simp [Job.moments, Job.log, Course.entries_moments (Job.entries_moments n)]

/-- **Moments are the entries of the log**, each with its activations. -/
theorem Definition.entries_moments (d : Definition) (steps : Nat) (data : Json.Document) :
    (d.moments steps data).map Moment.entry = d.log steps data := by
  rw [Definition.moments, Definition.log, map_after]
  simp only [Job.entries_moments]

/-- The moments of one course after another. -/
theorem Course.moments_bind (runs : (j : Job) → Run j.Result)
    (moments : List Activation → Job → Store → List Moment) (active : List Activation)
    (p : Course α) (f : α → Course β) : ∀ s,
      (p >>= f).moments runs moments active s = p.moments runs moments active s ++
        Script.after (p.run runs) s fun a t => (f a).moments runs moments active t := by
  induction p with
  | ends a => exact fun _ => rfl
  | step o next ih =>
      intro s
      show _ :: Script.after o.run s (fun a t => (next a >>= f).moments runs moments active t) = _
      simp [Course.moments, ih, after_bind, after_append]
  | part j next ih =>
      intro s
      show moments active j s ++
        Script.after (runs j) s (fun a t => (next a >>= f).moments runs moments active t) = _
      simp [Course.moments, ih, after_bind, after_append]
  | inCall stmts env next ih =>
      intro s
      show moments _ _ _ ++ Script.after (asCall (runs (.execAll stmts env))) s
        (fun a t => (next a >>= f).moments runs moments active t) = _
      simp [Course.moments, ih, after_bind, after_append]

/-- The log of one course after another. -/
theorem Course.log_bind {n : Nat} (p : Course α) (f : α → Course β) (s : Store) :
    (p >>= f).log (Job.run n) (Job.log n) s = p.log (Job.run n) (Job.log n) s ++
      Script.after (p.run (Job.run n)) s fun a t => (f a).log (Job.run n) (Job.log n) t := by
  have moments := congrArg (List.map Moment.entry)
    (Course.moments_bind (Job.run n) (Job.moments n) [] p f s)
  simpa only [List.map_append, map_after, Course.entries_moments (Job.entries_moments n)]
    using moments

end

/-! ### The moments of a job within those of another -/

section
variable {n k : Nat} {active a : List Activation} {j j' : Job} {s' : Store}

theorem Course.moments_subset {α : Type}
    (ih : ∀ active j s, ⟨a, .job k j' s'⟩ ∈ Job.moments n active j s →
      Job.moments k a j' s' ⊆ Job.moments n active j s) (p : Course α) : ∀ s,
      ⟨a, .job k j' s'⟩ ∈ p.moments (Job.run n) (Job.moments n) active s →
        Job.moments k a j' s' ⊆ p.moments (Job.run n) (Job.moments n) active s := by
  -- what follows a part of a course
  have later : ∀ {β : Type} (m : Run β) (next : β → Course α) (l : List Moment) (s : Store),
      (∀ b t, ⟨a, .job k j' s'⟩ ∈ (next b).moments (Job.run n) (Job.moments n) active t →
        Job.moments k a j' s' ⊆ (next b).moments (Job.run n) (Job.moments n) active t) →
      ⟨a, .job k j' s'⟩ ∈ Script.after m s (fun b t =>
        (next b).moments (Job.run n) (Job.moments n) active t) →
      Job.moments k a j' s' ⊆ l ++ Script.after m s fun b t =>
        (next b).moments (Job.run n) (Job.moments n) active t := by
    intro β m next l s hnext hm
    obtain ⟨b, t, hrun, hm⟩ := mem_after hm
    rw [after_ok hrun]
    exact List.subset_append_of_subset_right _ (hnext b t hm)
  induction p with
  | ends b => exact fun s hm => (List.not_mem_nil hm).elim
  | step o next ihp =>
      intro s hm
      rcases List.mem_cons.mp hm with hm | hm
      · cases hm
      · exact later o.run next [_] s ihp hm
  | part j next ihp =>
      intro s hm
      rcases List.mem_append.mp hm with hm | hm
      · exact List.subset_append_of_subset_left _ (ih active j s hm)
      · exact later _ next _ s ihp hm
  | inCall stmts env next ihp =>
      intro s hm
      rcases List.mem_append.mp hm with hm | hm
      · exact List.subset_append_of_subset_left _ (ih _ _ _ hm)
      · exact later _ next _ s ihp hm

/-- All moments of a job are among those of each job that it is done in. -/
theorem Job.moments_subset : ∀ (n : Nat) (active : List Activation) (j : Job) (s : Store),
    ⟨a, .job k j' s'⟩ ∈ Job.moments n active j s →
      Job.moments k a j' s' ⊆ Job.moments n active j s
  | 0, active, j, s, hm => by
      cases List.mem_singleton.mp hm
      exact List.Subset.refl _
  | n + 1, active, j, s, hm => by
      rcases List.mem_cons.mp hm with hm | hm
      · cases hm
        exact List.Subset.refl _
      · exact List.subset_cons_of_subset _
          (Course.moments_subset (Job.moments_subset n) (.ofJob j) s hm)

theorem Definition.moments_subset {d : Definition} {steps : Nat} {data : Json.Document}
    (h : ⟨a, .job k j' s'⟩ ∈ d.moments steps data) :
    Job.moments k a j' s' ⊆ d.moments steps data := by
  obtain ⟨v, s, himport, hm⟩ := mem_after h
  rw [Definition.moments, after_ok himport]
  exact Job.moments_subset steps [] _ s hm

end

/-! ### Where activations are opened -/

/-- **Plain courses**: no activation is opened, and none is refused. -/
@[simp] def Course.Plain {α : Type} : Course α → Prop
  | ends _ => True
  | step o next => o ≠ .fail .callDepth ∧ ∀ a, (next a).Plain
  | part _ next => ∀ a, (next a).Plain
  | inCall _ _ _ => False

namespace Course
variable {α β : Type}

@[simp] theorem plain_pure (a : α) : (pure a : Course α).Plain := trivial


@[simp] theorem plain_bind_ends (a : α) (f : α → Course β) :
    (ends a >>= f).Plain ↔ (f a).Plain := Iff.rfl

@[simp] theorem plain_bind_step (o : Op) (next : o.Result → Course α) (f : α → Course β) :
    (step o next >>= f).Plain ↔ o ≠ .fail .callDepth ∧ ∀ a, (next a >>= f).Plain := Iff.rfl

@[simp] theorem plain_bind_part (j : Job) (next : j.Result → Course α) (f : α → Course β) :
    (part j next >>= f).Plain ↔ ∀ a, (next a >>= f).Plain := Iff.rfl

theorem Plain.bind {p : Course α} {f : α → Course β} (hp : p.Plain) (hf : ∀ a, (f a).Plain) :
    (p >>= f).Plain := by
  induction p with
  | ends a => exact hf a
  | step o next ih => exact ⟨hp.1, fun a => ih a (hp.2 a)⟩
  | part j next ih => exact fun a => ih a (hp a)
  | inCall stmts env next ih => exact hp.elim

@[simp] theorem plain_ite (c : Prop) [Decidable c] (p q : Course α) :
    (if c then p else q).Plain ↔ if c then p.Plain else q.Plain :=
  iff_of_eq (apply_ite Plain c p q)

@[simp] theorem plain_fail {f : Fault} (h : f ≠ .callDepth) : (fail f : Course α).Plain :=
  ⟨fun e => h (Op.fail.inj e), fun e => e.elim⟩

/-! ### Names -/

theorem plain_functionValue (d : Definition) (env : Env) : (functionValue d env).Plain := by
  unfold functionValue
  split <;> simp [perform]

theorem plain_declareFunction (d : Definition) (env : Env) : (declareFunction d env).Plain := by
  simp [declareFunction, perform]

theorem plain_declareFunctions (env : Env) (body : List Stmt) :
    (declareFunctions env body).Plain := by
  induction body with
  | nil => trivial
  | cons first rest ih =>
      cases first with
      | function d => exact (plain_declareFunction d env).bind fun _ => ih
      | _ => exact ih

theorem plain_bindParameters (env : Env) (names : List String) (arguments : List Value) :
    (bindParameters env names arguments).Plain := by
  induction names generalizing arguments with
  | nil => trivial
  | cons name names ih => exact ⟨by simp, fun _ => ih _⟩

theorem plain_bindRest (env : Env) (name : Option String) (left : List Value) :
    (bindRest env name left).Plain := by
  cases name <;> simp [bindRest, perform]

theorem plain_declareVars (env : Env) (names : List String) : (declareVars env names).Plain := by
  induction names with
  | nil => trivial
  | cons name names ih => exact ⟨by simp, fun _ => ih⟩

/-- All that is bound before a body runs is bound before its activation. -/
theorem plain_enter (d : Definition) (env : Env) (arguments : List Value) :
    (enter d env arguments).Plain := by
  refine ⟨by simp, fun inner => ?_⟩
  refine (plain_bindParameters inner d.parameters arguments).bind fun left => ?_
  refine (plain_bindRest inner d.rest left).bind fun _ => ?_
  refine (plain_declareVars inner (hoistedNames d.body)).bind fun _ => ?_
  exact (plain_declareFunctions inner d.body).bind fun _ => trivial

theorem plain_bindRound (binding : LoopBinding) (item : Value) (env : Env) :
    (bindRound binding item env).Plain := by
  unfold bindRound
  split <;> simp [ownRound, perform]

theorem plain_bindDeclared (kind : DeclKind) (name : String) (value : Option Value) (env : Env) :
    (bindDeclared kind name value env).Plain := by
  cases kind <;> cases value <;> simp [bindDeclared, perform]

theorem plain_readPlace (env : Env) (place : Place) : (readPlace env place).Plain := by
  cases place <;> simp [readPlace, perform]

theorem plain_writePlace (env : Env) (value : Value) (place : Place) :
    (writePlace env value place).Plain := by
  cases place <;> simp [writePlace, perform]

/-! ### Jobs -/

theorem plain_ofExpr (env : Env) (e : Expr) : (ofExpr env e).Plain := by
  cases e with
  | function d => exact plain_functionValue d env
  | update increment before target =>
      exact fun place => (plain_readPlace env place).bind fun v =>
        ⟨by simp, fun s => (plain_writePlace env _ place).bind fun _ => trivial⟩
  | assign op target value =>
      cases op with
      | none => exact fun place v => (plain_writePlace env v place).bind fun _ => trivial
      | some op =>
          exact fun place => (plain_readPlace env place).bind fun current operand =>
            ⟨by simp, fun v => (plain_writePlace env v place).bind fun _ => trivial⟩
  | unary op operand =>
      unfold ofExpr
      split <;> simp_all [perform, carryOut]
  | _ => simp [ofExpr, look, perform, carryOut]

theorem plain_ofPlace (env : Env) (e : Expr) : (ofPlace env e).Plain := by
  cases e <;> simp [ofPlace, look, perform, carryOut]

theorem plain_callOrFail (f : Value) (arguments : List Value) (described : String) :
    (callOrFail f arguments described).Plain := by
  simp [callOrFail, carryOut]

theorem plain_ofCall (arguments : List Expr) (env : Env) (callee : Expr) :
    (ofCall arguments env callee).Plain := by
  cases callee <;> simp [ofCall, look, plain_callOrFail, perform, carryOut]

theorem plain_ofMethod (described : String) (receiver : Value) (name : String)
    (arguments : List Value) : (ofMethod described receiver name arguments).Plain := by
  unfold ofMethod
  split <;> simp [look, plain_callOrFail, perform, carryOut]

theorem plain_ofCallable (arguments : List Value) (s : Store) (c : Callable) :
    (ofCallable arguments s c).Plain := by
  unfold ofCallable
  split <;> simp [perform, carryOut]

theorem plain_nextRound {again : Course Completion} (h : again.Plain) (c : Completion) :
    (nextRound again c).Plain := by
  cases c with
  | normal | «continue» => exact h
  | «break» | «return» => trivial

theorem plain_ofOption (env : Env) (e : Option Expr) : (ofOption env e).Plain := by
  cases e <;> simp [ofOption, carryOut]

theorem plain_ofStmt (env : Env) (stmt : Stmt) : (ofStmt env stmt).Plain := by
  cases stmt with
  | function d => exact (plain_declareFunction d env).bind fun _ => trivial
  | branch test yes no => cases no <;> simp [ofStmt, carryOut]
  | loop init test update body => cases init <;> simp [ofStmt, perform, carryOut]
  | «return» value => cases value <;> simp [ofStmt, carryOut]
  | _ => simp [ofStmt, look, perform, carryOut]

/-- **Only calls of script functions open activations.** -/
theorem plain_ofJob {j : Job} (hj : ∀ d env arguments, j ≠ .invoke d env arguments) :
    (ofJob j).Plain := by
  cases j with
  | eval e env => exact plain_ofExpr env e
  | evalAll es env => cases es <;> simp [ofJob, carryOut]
  | evalFields fields done env => cases fields <;> simp [ofJob, carryOut]
  | evalPlace e env => exact plain_ofPlace env e
  | evalCall callee arguments env => exact plain_ofCall arguments env callee
  | callMethod described receiver name arguments =>
      exact plain_ofMethod described receiver name arguments
  | visit f whole entries done => cases entries <;> simp [ofJob, carryOut]
  | call f arguments =>
      refine ⟨by simp, fun s => ?_⟩
      cases f with
      | function r => exact plain_ofCallable arguments s (s.callable r)
      | _ => exact plain_fail (by simp)
  | invoke d env arguments => exact absurd rfl (hj d env arguments)
  | exec stmt env => exact plain_ofStmt env stmt
  | execAll body env =>
      cases body with
      | nil => trivial
      | cons first rest =>
          intro completion
          cases completion with
          | normal => exact fun _ => trivial
          | _ => trivial
  | execBindings kind bindings env =>
      cases bindings with
      | nil => trivial
      | cons first rest =>
          exact (plain_ofOption env first.2).bind fun v =>
            (plain_bindDeclared kind first.1 v env).bind fun _ _ => trivial
  | execLoop test update body env =>
      intro goesOn
      refine (plain_ite _ _ _).mpr ?_
      split
      · intro completion
        refine plain_nextRound ?_ completion
        exact fun _ _ => trivial
      · trivial
  | evalTest test env => exact (plain_ofOption env test).bind fun _ => trivial
  | evalUpdate update env => exact (plain_ofOption env update).bind fun _ => trivial
  | execEach binding items body env =>
      cases items with
      | nil => trivial
      | cons item rest =>
          refine (plain_bindRound binding item env).bind fun inner completion => ?_
          refine plain_nextRound ?_ completion
          exact fun _ => trivial

end Course

/-! ### The depth of a store -/

/-- No operation changes the number of open calls. -/
theorem Op.depth_run (o : Op) (s : Store) : (storeOf (o.run s)).depth = s.depth := by
  by_cases hheap : o.OfHeap
  · exact (Op.onHeap hheap).depth s
  cases o with
  | look | fail | newFunction | newScope => rfl
  | define env name value mutable => rw [Op.run, define_run]; rfl
  | declare env name value mutable =>
      simp only [Op.run, declare_run]
      split <;> rfl
  | declareVar env name =>
      simp only [Op.run, declareVar_run]
      split <;> rfl
  | lookUp env name =>
      simp only [Op.run, lookUp_run]
      split <;> rfl
  | typeOfName env name =>
      simp only [Op.run, typeOfName_run]
      split <;> rfl
  | assign env name value =>
      simp only [Op.run, assignName_run]
      split
      · split <;> rfl
      · rfl
  | _ => exact absurd trivial hheap

/-- Whether the depth of the store at a moment is the number of its activations, before its entry and
after it, and there are not too many. -/
structure Moment.Exact (m : Moment) : Prop where
  before : m.entry.before.depth = m.active.length
  after : m.entry.after.depth = m.active.length
  bounded : m.active.length ≤ maxCallDepth

/-- Whether the innermost activation at a moment is that of a call begun among the given moments. -/
def Moment.OpenedIn (l : List Moment) (m : Moment) : Prop :=
  ∃ a rest n f env arguments s t, m.active = a :: rest ∧
    ⟨rest, .job (n + 1) (.invoke f env arguments) s⟩ ∈ l ∧ a.body = f.body ∧
      enter f env arguments s = .ok a.env t

/-- **Accounts**: what is said of the moments of a run that begins where the given activations are
open, by what is found among all moments. -/
structure Accounts (all : List Moment) (active : List Activation) (l : List Moment) (s t : Store) :
    Prop where
  exact : ∀ m ∈ l, m.Exact
  opened : ∀ m ∈ l, m.active = active ∨ m.OpenedIn all
  refused : ∀ a u, ⟨a, .op (.fail .callDepth) u⟩ ∈ l →
    ∃ n f env arguments s, ⟨a, .job (n + 1) (.invoke f env arguments) s⟩ ∈ all ∧
      a.length = maxCallDepth
  ends : t.depth = s.depth

section
variable {all l : List Moment} {active : List Activation} {s t u : Store}

theorem Accounts.nil (s : Store) : Accounts all active [] s s where
  exact _ hm := (List.not_mem_nil hm).elim
  opened _ hm := (List.not_mem_nil hm).elim
  refused _ _ hm := (List.not_mem_nil hm).elim
  ends := rfl

theorem Accounts.append {l' : List Moment} (h : Accounts all active l s t)
    (h' : Accounts all active l' t u) : Accounts all active (l ++ l') s u where
  exact m hm := (List.mem_append.mp hm).elim (h.exact m) (h'.exact m)
  opened m hm := (List.mem_append.mp hm).elim (h.opened m) (h'.opened m)
  refused a v hm := (List.mem_append.mp hm).elim (h.refused a v) (h'.refused a v)
  ends := h'.ends.trans h.ends

/-- One entry that changes the depth of the store no more than a run that ends in the same store. -/
theorem Accounts.entry {e : Entry} (hs : e.before.depth = active.length)
    (hb : active.length ≤ maxCallDepth) (he : e.after.depth = e.before.depth)
    (hne : ∀ u, e ≠ .op (.fail .callDepth) u) (h : t.depth = s.depth) :
    Accounts all active [⟨active, e⟩] s t where
  exact m hm := by
    cases List.mem_singleton.mp hm
    exact ⟨hs, he.trans hs, hb⟩
  opened m hm := by
    cases List.mem_singleton.mp hm
    exact .inl rfl
  refused a u hm := by
    cases List.mem_singleton.mp hm
    exact absurd rfl (hne u)
  ends := h

theorem Accounts.op {o : Op} (ho : o ≠ .fail .callDepth) (hs : s.depth = active.length)
    (hb : active.length ≤ maxCallDepth) :
    Accounts all active [⟨active, .op o s⟩] s (storeOf (o.run s)) :=
  .entry hs hb (o.depth_run s) (fun _ h => by cases h; exact ho rfl) (o.depth_run s)

/-- A job and all that is done in it. -/
theorem Accounts.job {n : Nat} {j : Job} (hs : s.depth = active.length)
    (hb : active.length ≤ maxCallDepth) (h : Accounts all active l s (storeOf (j.run n s))) :
    Accounts all active (⟨active, .job n j s⟩ :: l) s (storeOf (j.run n s)) :=
  (Accounts.entry (e := .job n j s) hs hb h.ends (fun _ h => by cases h) rfl).append h

/-- A run, and what follows where it has a result. -/
theorem Accounts.bind {α β : Type} {m : Run α} {k : α → Run β}
    {next : α → Store → List Moment} (h : Accounts all active l s (storeOf (m s)))
    (hk : ∀ a t, m s = .ok a t → t.depth = s.depth →
      Accounts all active (next a t) t (storeOf (k a t))) :
    Accounts all active (l ++ Script.after m s next) s (storeOf ((m >>= k) s)) := by
  rw [run_bind]
  cases hr : m s with
  | ok a t =>
      rw [hr] at h
      rw [after_ok hr]
      exact h.append (hk a t hr h.ends)
  | error e t =>
      rw [hr] at h
      rw [after_error hr, List.append_nil]
      exact h

/-- A run of a body in an activation of its own, by the call that opens it. -/
theorem Accounts.asCall {α : Type} {m : Run α} {a : Activation}
    (h : Accounts all (a :: active) l s.deeper (storeOf (m s.deeper)))
    (ha : ∀ e, Moment.OpenedIn all ⟨a :: active, e⟩) :
    Accounts all active l s (storeOf (asCall m s)) where
  exact := h.exact
  opened m hm := by
    rcases h.opened m hm with heq | hopened
    · obtain ⟨active', e⟩ := m
      cases heq
      exact .inr (ha e)
    · exact .inr hopened
  refused := h.refused
  ends := by
    have hends : (storeOf (m s.deeper)).depth = s.depth + 1 := h.ends
    rw [asCall_run]
    cases hm : m s.deeper with
    | ok b t =>
        rw [hm] at hends
        exact congrArg (· - 1) hends
    | error e t =>
        rw [hm] at hends
        exact congrArg (· - 1) hends

/-! ### Runs -/

/-- What a call does once it has found how many calls are open. -/
def Course.callAt (d : Definition) (env : Env) (arguments : List Value) (s : Store) : Course Value :=
  if maxCallDepth ≤ s.depth then fail .callDepth
  else enter d env arguments >>= fun inner => inCall d.body inner returned

theorem Course.ofJob_invoke (d : Definition) (env : Env) (arguments : List Value) :
    ofJob (.invoke d env arguments) = step .look (callAt d env arguments) := rfl

/-- A call that would open one activation too many. -/
theorem accounts_refused {n : Nat} {d : Definition} {env : Env} {arguments : List Value}
    (hs : s.depth = active.length) (hb : active.length = maxCallDepth)
    (hhead : ⟨active, .job (n + 1) (.invoke d env arguments) s⟩ ∈ all) :
    Accounts all active [⟨active, .op (.fail .callDepth) s⟩] s s where
  exact m hm := by
    cases List.mem_singleton.mp hm
    exact ⟨hs, hs, hb.le⟩
  opened m hm := by
    cases List.mem_singleton.mp hm
    exact .inl rfl
  refused a u hm := by
    cases List.mem_singleton.mp hm
    exact ⟨n, d, env, arguments, s, hhead, hb⟩
  ends := rfl

section
variable {n : Nat}
  (ih : ∀ active j s, s.depth = active.length → active.length ≤ maxCallDepth →
    Job.moments n active j s ⊆ all →
      Accounts all active (Job.moments n active j s) s (storeOf (j.run n s)))
include ih

/-- A plain course, if the jobs in it are accounted for. -/
theorem Course.accounts {α : Type} {p : Course α} (hp : p.Plain) : ∀ s,
    s.depth = active.length → active.length ≤ maxCallDepth →
      p.moments (Job.run n) (Job.moments n) active s ⊆ all →
        Accounts all active (p.moments (Job.run n) (Job.moments n) active s) s
          (storeOf (p.run (Job.run n) s)) := by
  induction p with
  | ends a => exact fun s _ _ _ => .nil s
  | step o next ihp =>
      intro s hs hb hall
      refine (Accounts.op hp.1 hs hb).bind (l := [_]) fun a t hr ht => ?_
      refine ihp a (hp.2 a) t (ht.trans hs) hb ?_
      have hrest := (List.cons_subset.mp hall).2
      rwa [after_ok hr] at hrest
  | part j next ihp =>
      intro s hs hb hall
      have hsplit := List.append_subset.mp hall
      refine (ih active j s hs hb hsplit.1).bind fun a t hr ht => ?_
      refine ihp a (hp a) t (ht.trans hs) hb ?_
      have hrest := hsplit.2
      rwa [after_ok hr] at hrest
  | inCall stmts env next ihp => exact hp.elim

/-- A call that opens an activation. -/
theorem accounts_opened {d : Definition} {env : Env} {arguments : List Value}
    (hs : s.depth = active.length) (hb : active.length < maxCallDepth)
    (hhead : ⟨active, .job (n + 1) (.invoke d env arguments) s⟩ ∈ all) :
    let p := Course.enter d env arguments >>= fun inner =>
      Course.inCall d.body inner Course.returned
    p.moments (Job.run n) (Job.moments n) active s ⊆ all →
      Accounts all active (p.moments (Job.run n) (Job.moments n) active s) s
        (storeOf (p.run (Job.run n) s)) := by
  intro p hall
  simp only [p, Course.moments_bind, Course.run_bind] at hall ⊢
  have hsplit := List.append_subset.mp hall
  refine (Course.accounts ih (Course.plain_enter d env arguments) s hs hb.le hsplit.1).bind
    fun inner t hr ht => ?_
  have hrest := hsplit.2
  rw [after_ok hr] at hrest
  have hparts := List.append_subset.mp hrest
  rw [Course.run_enter] at hr
  have hbody := ih (⟨d.body, inner⟩ :: active) (.execAll d.body inner) t.deeper
    (congrArg (· + 1) (ht.trans hs)) hb hparts.1
  refine (hbody.asCall fun e => ?_).bind fun c u _ hu => ?_
  · exact ⟨⟨d.body, inner⟩, active, n, d, env, arguments, s, t, rfl, hhead, rfl, hr⟩
  · cases c <;> exact .nil u

/-- The call of a script function opens an activation, or is refused one. -/
theorem accounts_invoke {d : Definition} {env : Env} {arguments : List Value}
    (hs : s.depth = active.length) (hb : active.length ≤ maxCallDepth)
    (hhead : ⟨active, .job (n + 1) (.invoke d env arguments) s⟩ ∈ all)
    (hall : (Course.ofJob (.invoke d env arguments)).moments (Job.run n) (Job.moments n) active s ⊆
      all) :
    Accounts all active
      ((Course.ofJob (.invoke d env arguments)).moments (Job.run n) (Job.moments n) active s) s
      (storeOf ((Course.ofJob (.invoke d env arguments)).run (Job.run n) s)) := by
  rw [Course.ofJob_invoke] at hall ⊢
  refine (Accounts.op (o := .look) (by simp) hs hb).append ?_
  have hcourse : (Course.callAt d env arguments s).moments (Job.run n) (Job.moments n) active s ⊆ all :=
    (List.cons_subset.mp hall).2
  show Accounts all active ((Course.callAt d env arguments s).moments _ _ active s) s
    (storeOf ((Course.callAt d env arguments s).run _ s))
  by_cases hdeep : maxCallDepth ≤ s.depth
  · rw [Course.callAt, if_pos hdeep]
    exact accounts_refused hs (hb.antisymm (hs ▸ hdeep)) hhead
  · rw [Course.callAt, if_neg hdeep] at hcourse ⊢
    exact accounts_opened ih hs (by omega) hhead hcourse

end

/-- **Every run is accounted for.** -/
theorem Job.accounts : ∀ (n : Nat) (active : List Activation) (j : Job) (s : Store),
    s.depth = active.length → active.length ≤ maxCallDepth → Job.moments n active j s ⊆ all →
      Accounts all active (Job.moments n active j s) s (storeOf (j.run n s))
  | 0, active, j, s, hs, hb, hall => by
      have hends : (storeOf (j.run 0 s)).depth = s.depth := by rw [Job.run_zero]; rfl
      exact .entry hs hb hends (fun _ h => by cases h) hends
  | n + 1, active, j, s, hs, hb, hall => by
      have hsplit := List.cons_subset.mp hall
      refine .job hs hb ?_
      rw [Job.run_succ]
      by_cases hj : ∃ d env arguments, j = .invoke d env arguments
      · obtain ⟨d, env, arguments, rfl⟩ := hj
        exact accounts_invoke (Job.accounts n) hs hb hsplit.1 hsplit.2
      · have plain : (Course.ofJob j).Plain :=
          Course.plain_ofJob fun d env arguments h => hj ⟨d, env, arguments, h⟩
        exact Course.accounts (Job.accounts n) plain s hs hb hsplit.2

end

/-- **A call from outside is accounted for.** -/
theorem Definition.accounts (d : Definition) (steps : Nat) (data : Json.Document) :
    ∃ s t, Accounts (d.moments steps data) [] (d.moments steps data) s t := by
  obtain ⟨v, s, himport, -⟩ := grown_importDocument data Store.initial
  have hdepth : s.depth = 0 := (importDocument_initial himport).2.2
  rw [Definition.moments, after_ok himport]
  exact ⟨_, _, Job.accounts steps [] _ s hdepth (Nat.zero_le _) (List.Subset.refl _)⟩

/-- The only fault with its wording. -/
theorem Fault.eq_callDepth_of_message {f : Fault}
    (h : f.message = "Maximum call stack size exceeded") : f = .callDepth := by
  -- every other wording that has a part of its own ends with other letters
  have ends {first : String} (last : String)
      (h : first ++ last = "Maximum call stack size exceeded") :
      last.toList <:+ "Maximum call stack size exceeded".toList :=
    ⟨first.toList, by rw [← String.toList_append, h]⟩
  cases f with
  | callDepth => rfl
  | notDefined name => exact absurd (ends " is not defined" h) (by decide +kernel)
  | notCallable what => exact absurd (ends " is not a function" h) (by decide +kernel)
  | notIterable what => exact absurd (ends " is not iterable" h) (by decide +kernel)
  | constantAssignment name => exact absurd (ends "'." h) (by decide +kernel)
  | alreadyDeclared name => exact absurd (ends "' has already been declared" h) (by decide +kernel)
  | cannotRead base key | cannotSet base key => exact absurd (ends "')" h) (by decide +kernel)
  | invalidTarget | repeatCount | fixedPlaces | stringLength | arrayLength =>
      exact absurd h (by decide)

/-- **Call depth is exact.**  In a call of any function, at every moment the depth of the store is the
number of activations that are open, each of which was opened by the call of a script function, and
it is at most 64; it is the same after every job and every operation as before, whether these fail or
not.  The call ends over too many open calls exactly if a script function is called where 64
activations are open. -/
theorem call_depth_exact (d : Definition) (steps : Nat) (data : Json.Document) :
    (d.moments steps data).map Moment.entry = d.log steps data ∧
    (∀ m ∈ d.moments steps data, m.entry.before.depth = m.active.length ∧
      m.entry.after.depth = m.active.length ∧ m.active.length ≤ 64) ∧
    (∀ m ∈ d.moments steps data, ∀ a rest, m.active = a :: rest →
      ∃ n f env arguments s t,
        ⟨rest, .job (n + 1) (.invoke f env arguments) s⟩ ∈ d.moments steps data ∧
          a.body = f.body ∧ enter f env arguments s = .ok a.env t) ∧
    ((∃ f, d.apply steps data = .error (.fault f) ∧
        f.message = "Maximum call stack size exceeded") ↔
      ∃ active n f env arguments s,
        ⟨active, .job (n + 1) (.invoke f env arguments) s⟩ ∈ d.moments steps data ∧
          active.length = 64) := by
  obtain ⟨s₀, t₀, accounts⟩ := d.accounts steps data
  have entries := d.entries_moments steps data
  refine ⟨entries, fun m hm => ?_, fun m hm a rest ha => ?_, ⟨?_, ?_⟩⟩
  · obtain ⟨before, after, bounded⟩ := accounts.exact m hm
    exact ⟨before, after, bounded⟩
  · rcases accounts.opened m hm with hnone | ⟨a', rest', n, f, env, arguments, s, t, ha', h⟩
    · rw [ha] at hnone
      cases hnone
    · rw [ha] at ha'
      cases ha'
      exact ⟨n, f, env, arguments, s, t, h⟩
  · -- a call that ends with this fault has it in its log, from an operation that only `callAt` makes
    rintro ⟨f, happly, hf⟩
    obtain rfl := Fault.eq_callDepth_of_message hf
    obtain ⟨o, s, u, hm, hr⟩ := d.fault_log happly
    obtain rfl := Op.eq_fail_of_callDepth hr
    rw [← entries] at hm
    obtain ⟨⟨active, e⟩, hm, rfl⟩ := List.mem_map.mp hm
    obtain ⟨n, f, env, arguments, w, hm, hlen⟩ := accounts.refused active s hm
    exact ⟨active, n, f, env, arguments, w, hm, hlen⟩
  · -- where as many are open as may be, the job fails at once, and its failure is the end of the call
    rintro ⟨active, n, f, env, arguments, s, hm, hlen⟩
    have hdeep : maxCallDepth ≤ s.depth := ((accounts.exact _ hm).before.trans hlen).ge
    refine ⟨.callDepth, Definition.apply_of_log (o := .fail .callDepth) (s := s) (u := s) ?_ rfl, rfl⟩
    rw [← entries]
    refine List.mem_map.mpr ⟨⟨active, .op (.fail .callDepth) s⟩, ?_, rfl⟩
    refine Definition.moments_subset hm (List.mem_cons_of_mem _ (List.mem_cons_of_mem _ ?_))
    show _ ∈ (Course.callAt f env arguments s).moments _ _ active s
    rw [Course.callAt, if_pos hdeep]
    exact List.mem_cons_self

end Stencil.Script
