import Stencil.Proofs.Jobs.Course

/-!
# Jobs — the log of a run

`Job.log` lists what is done in the run of a job: every job that is begun and every operation, in the
order in which they are, each with the store that it finds.  The stores before and after the entries
are the states that the run passes.

* `Definition.log`: the log of a call from outside.
* `Op.run_error`: an operation that fails leaves the store as it is.
* `Lasting`: what holds up to the first entry that is not trusted.
* `Job.reports`: a log reports where its run fails.
* `Job.keptAlong`: what every operation keeps of the states before it is kept along a log.
-/

namespace Stencil.Script

/-- **Entries of a log**: an operation that is done, or a job that is begun with so many steps, and the
store that is found. -/
inductive Entry where
  | op (o : Op) (s : Store)
  | job (n : Nat) (j : Job) (s : Store)

/-- The store that an entry finds. -/
def Entry.before : Entry → Store
  | op _ s => s
  | job _ _ s => s

/-- The store that an entry leaves. -/
def Entry.after : Entry → Store
  | op o s => storeOf (o.run s)
  | job n j s => storeOf (j.run n s)

/-- The store that a run goes on with at an entry. -/
def Entry.passed : Entry → Store
  | op o s => storeOf (o.run s)
  | job _ _ s => s

/-- A store with one more open call. -/
def Store.deeper (s : Store) : Store :=
  { s with depth := s.depth + 1 }

/-- A store with one open call less. -/
def Store.shallower (s : Store) : Store :=
  { s with depth := s.depth - 1 }

/-- The log of a course, by the runs and the logs of its jobs. -/
def Course.log {α : Type} (runs : (j : Job) → Run j.Result) (logs : Job → Store → List Entry) :
    Course α → Store → List Entry
  | ends _, _ => []
  | step o next, s => .op o s :: Script.after o.run s fun a t => (next a).log runs logs t
  | part j next, s => logs j s ++ Script.after (runs j) s fun a t => (next a).log runs logs t
  | inCall stmts env next, s =>
    logs (.execAll stmts env) s.deeper ++
      Script.after (asCall (runs (.execAll stmts env))) s fun c t => (next c).log runs logs t

/-- **The log of a job** that is done with so many steps. -/
def Job.log : (steps : Nat) → Job → Store → List Entry
  | 0, j, s => [.job 0 j s]
  | n + 1, j, s => .job (n + 1) j s :: (Course.ofJob j).log (Job.run n) (Job.log n) s

/-- **The log of a call from outside**, once its data is made. -/
def Definition.log (d : Definition) (steps : Nat) (data : Json.Document) : List Entry :=
  Script.after (importDocument data) Store.initial fun v s =>
    Job.log steps (.invoke d globalEnv [v, helper]) s

/-! ### Runs of calls -/

theorem asCall_run {α : Type} (m : Run α) (s : Store) :
    asCall m s = mapStore Store.shallower (m s.deeper) := by
  have hdeeper : m { s with depth := s.depth + 1 } = m s.deeper := rfl
  rw [asCall, hdeeper]
  cases m s.deeper <;> rfl

/-! ### Operations that fail -/

/-- Runs that leave the store as it is where they fail, and fail with a fault, though not over the
number of open calls. -/
def FailsUnchanged {α : Type} (m : Run α) : Prop :=
  ∀ s e t, m s = .error e t → t = s ∧ ∃ f, e = .fault f ∧ f ≠ .callDepth

section
variable {α β : Type}

theorem failsUnchanged_pure (a : α) : FailsUnchanged (pure a : Run α) :=
  fun _ _ _ h => by cases h

theorem failsUnchanged_fail {f : Fault} (hf : f ≠ .callDepth) : FailsUnchanged (fail f : Run α) := by
  intro s e t h
  cases h
  exact ⟨rfl, f, rfl, hf⟩

theorem failsUnchanged_reading {k : Store → Run β} (h : ∀ s, FailsUnchanged (k s)) :
    FailsUnchanged (get >>= k) :=
  fun s e t he => h s s e t he

/-- A run that does not fail. -/
theorem failsUnchanged_of_ok {m : Run α} (h : ∀ s, ∃ a t, m s = .ok a t) : FailsUnchanged m := by
  intro s e t he
  obtain ⟨a, u, hs⟩ := h s
  rw [hs] at he
  cases he

end

theorem failsUnchanged_getProperty (base : Value) (key : String) :
    FailsUnchanged (getProperty base key) := by
  refine failsUnchanged_reading fun s => ?_
  cases base <;> first | exact failsUnchanged_fail (by simp) | exact failsUnchanged_pure _

theorem failsUnchanged_setProperty (base : Value) (key : String) (value : Value) :
    FailsUnchanged (setProperty base key value) := by
  cases base with
  | undefined => exact failsUnchanged_fail (by simp)
  | null => exact failsUnchanged_fail (by simp)
  | object o => exact failsUnchanged_of_ok fun s => ⟨_, _, rfl⟩
  | array a =>
      unfold setProperty
      dsimp only
      split
      · refine failsUnchanged_reading fun s => ?_
        split
        · exact failsUnchanged_fail (by simp)
        · exact failsUnchanged_of_ok fun s => ⟨_, _, rfl⟩
      · split
        · refine failsUnchanged_reading fun s => ?_
          split
          · exact failsUnchanged_of_ok fun s => ⟨_, _, rfl⟩
          · exact failsUnchanged_fail (by simp)
        · exact failsUnchanged_pure _
  | _ => exact failsUnchanged_pure _

theorem failsUnchanged_operate (op : BinaryOp) (v w : Value) : FailsUnchanged (operate op v w) := by
  cases op
  case add =>
    have hjoin : ∀ a b, FailsUnchanged (add.join a b) := fun a b => by
      unfold add.join
      split
      · exact failsUnchanged_fail (by simp)
      · exact failsUnchanged_pure _
    refine failsUnchanged_reading fun s => ?_
    split
    · exact hjoin _ _
    · exact hjoin _ _
    · exact failsUnchanged_pure _
  all_goals exact failsUnchanged_reading fun _ => failsUnchanged_pure _

theorem failsUnchanged_stringMethod (m : StringMethod) (t : String) (arguments : List Value) :
    FailsUnchanged (m.run t arguments) := by
  cases m
  case split =>
    refine failsUnchanged_reading fun s => ?_
    dsimp only
    split <;> exact failsUnchanged_of_ok fun s => ⟨_, _, rfl⟩
  case «repeat» =>
    refine failsUnchanged_reading fun s => ?_
    show FailsUnchanged (repeated t (s.whole (argument arguments 0)))
    unfold repeated
    split
    · split
      · exact failsUnchanged_fail (by simp)
      · split
        · exact failsUnchanged_fail (by simp)
        · exact failsUnchanged_pure _
    · exact failsUnchanged_fail (by simp)
  all_goals exact failsUnchanged_reading fun _ => failsUnchanged_pure _

theorem failsUnchanged_numberMethod (m : NumberMethod) (x : Float) (arguments : List Value) :
    FailsUnchanged (m.run x arguments) := by
  cases m
  case toString => exact failsUnchanged_pure _
  case toFixed =>
    refine failsUnchanged_reading fun s => ?_
    unfold fixedText
    split
    · split
      · exact failsUnchanged_fail (by simp)
      · split <;> exact failsUnchanged_pure _
    · exact failsUnchanged_fail (by simp)

/-- Every operation but a fault itself. -/
theorem Op.failsUnchanged {o : Op} (ho : ∀ f, o ≠ .fail f) : FailsUnchanged o.run := by
  cases o with
  | fail f => exact absurd rfl (ho f)
  | declare env name value mutable =>
      refine failsUnchanged_reading fun s => ?_
      split
      · exact failsUnchanged_fail (by simp)
      · exact failsUnchanged_of_ok fun s => ⟨_, _, rfl⟩
  | declareVar env name =>
      refine failsUnchanged_reading fun s => ?_
      split <;> exact failsUnchanged_of_ok fun s => ⟨_, _, rfl⟩
  | lookUp env name =>
      refine failsUnchanged_reading fun s => ?_
      split
      · exact failsUnchanged_pure _
      · exact failsUnchanged_fail (by simp)
  | typeOfName env name =>
      refine failsUnchanged_reading fun s => ?_
      split <;> exact failsUnchanged_pure _
  | assign env name value =>
      refine failsUnchanged_reading fun s => ?_
      split
      · split
        · exact failsUnchanged_of_ok fun s => ⟨_, _, rfl⟩
        · exact failsUnchanged_fail (by simp)
      · exact failsUnchanged_fail (by simp)
  | getProperty base key => exact failsUnchanged_getProperty base key
  | setProperty base key value => exact failsUnchanged_setProperty base key value
  | unary op v =>
      refine failsUnchanged_reading fun s => ?_
      cases op <;> exact failsUnchanged_pure _
  | binary op v w => exact failsUnchanged_operate op v w
  | loopItems v =>
      refine failsUnchanged_reading fun s => ?_
      cases v <;> first | exact failsUnchanged_fail (by simp) | exact failsUnchanged_pure _
  | arrayMethod m a arguments =>
      cases m <;> exact failsUnchanged_of_ok fun s => ⟨_, _, rfl⟩
  | stringMethod m t arguments => exact failsUnchanged_stringMethod m t arguments
  | numberMethod m x arguments => exact failsUnchanged_numberMethod m x arguments
  | plain n arguments => cases n <;> exact failsUnchanged_of_ok fun s => ⟨_, _, rfl⟩
  | collect m items returned => cases m <;> exact failsUnchanged_of_ok fun s => ⟨_, _, rfl⟩
  | _ => exact failsUnchanged_of_ok fun s => ⟨_, _, rfl⟩

/-- **An operation that fails leaves the store as it is.** -/
theorem Op.run_error {o : Op} {s t : Store} {e : Stop} (h : o.run s = .error e t) :
    t = s ∧ ∃ f, e = .fault f := by
  by_cases ho : ∃ f, o = .fail f
  · obtain ⟨f, rfl⟩ := ho
    cases h
    exact ⟨rfl, f, rfl⟩
  · obtain ⟨hs, f, hf, -⟩ := Op.failsUnchanged (fun f hf => ho ⟨f, hf⟩) s e t h
    exact ⟨hs, f, hf⟩

/-- No operation but the fault itself fails over the number of open calls. -/
theorem Op.eq_fail_of_callDepth {o : Op} {s t : Store}
    (h : o.run s = .error (.fault .callDepth) t) : o = .fail .callDepth := by
  by_cases ho : ∃ f, o = .fail f
  · obtain ⟨f, rfl⟩ := ho
    cases h
    rfl
  · obtain ⟨-, f, hf, hne⟩ := Op.failsUnchanged (fun f hf => ho ⟨f, hf⟩) s _ t h
    cases hf
    exact absurd rfl hne

/-! ### Logs as lists -/

section
variable {α γ : Type} {m : Run α} {s t : Store}

theorem mem_after {next : α → Store → List γ} {x : γ} (h : x ∈ Script.after m s next) :
    ∃ a t, m s = .ok a t ∧ x ∈ next a t := by
  rw [Script.after] at h
  cases hm : m s with
  | ok a t =>
      rw [hm] at h
      exact ⟨a, t, rfl, h⟩
  | error e t => rw [hm] at h; cases h

theorem after_error {e : Stop} (h : m s = .error e t) (next : α → Store → List γ) :
    Script.after m s next = [] := by
  rw [Script.after, h]

end

/-- What holds of the entries up to the first one that is not trusted, that one included. -/
def Lasting (holds trusted : Entry → Prop) : List Entry → Prop
  | [] => True
  | e :: rest => holds e ∧ (trusted e → Lasting holds trusted rest)

section
variable {P T : Entry → Prop} {l l' : List Entry}

theorem lasting_append :
    Lasting P T (l ++ l') ↔ Lasting P T l ∧ ((∀ e ∈ l, T e) → Lasting P T l') := by
  induction l with
  | nil => simp [Lasting]
  | cons e l ih =>
      simp only [List.cons_append, Lasting, ih, List.mem_cons, forall_eq_or_imp]
      constructor
      · exact fun h => ⟨⟨h.1, fun ht => (h.2 ht).1⟩, fun hl => (h.2 hl.1).2 hl.2⟩
      · exact fun h => ⟨h.1.1, fun ht => ⟨h.1.2 ht, fun hl => h.2 ⟨ht, hl⟩⟩⟩

theorem Lasting.all (h : Lasting P T l) (ht : ∀ e ∈ l, T e) : ∀ e ∈ l, P e := by
  induction l with
  | nil => exact fun e he => by cases he
  | cons e l ih =>
      intro x hx
      rcases List.mem_cons.mp hx with rfl | hx
      · exact h.1
      · exact ih (h.2 (ht e List.mem_cons_self)) (fun y hy => ht y (List.mem_cons_of_mem _ hy)) x hx

theorem Lasting.imp {P' T' : Entry → Prop} (h : Lasting P T l) (hP : ∀ e, P e → P' e)
    (hT : ∀ e, T' e → T e) : Lasting P' T' l := by
  induction l with
  | nil => trivial
  | cons e l ih => exact ⟨hP e h.1, fun ht => ih (h.2 (hT e ht))⟩

/-- The entries before one that is not trusted, and this one. -/
theorem Lasting.of_append {e : Entry} (h : Lasting P T (l ++ e :: l')) (ht : ∀ x ∈ l, T x) : P e :=
  ((lasting_append.mp h).2 ht).1

end

/-! ### Where a run fails -/

/-- **Reports**: a run fails as the operations of its log do, and with a fault only if one does. -/
structure Reports {α : Type} (l : List Entry) (m : Run α) (s : Store) : Prop where
  fails : ∀ o t e u, .op o t ∈ l → o.run t = .error e u → ∃ v, m s = .error e v
  fault : ∀ f v, m s = .error (.fault f) v → ∃ o t u, .op o t ∈ l ∧ o.run t = .error (.fault f) u

section
variable {α β : Type} {s : Store}

theorem Reports.bind {m : Run α} {k : α → Run β} {l : List Entry} {logs : α → Store → List Entry}
    (h : Reports l m s) (hk : ∀ a t, m s = .ok a t → Reports (logs a t) (k a) t) :
    Reports (l ++ Script.after m s logs) (m >>= k) s := by
  constructor
  · intro o t e u hm hrun
    rw [Script.run_bind]
    rcases List.mem_append.mp hm with hm | hm
    · obtain ⟨v, hv⟩ := h.fails o t e u hm hrun
      exact ⟨v, by rw [hv]⟩
    · obtain ⟨a, w, hw, hm⟩ := mem_after hm
      rw [hw]
      exact (hk a w hw).fails o t e u hm hrun
  · intro f v hrun
    rw [Script.run_bind] at hrun
    cases hr : m s with
    | ok a t =>
        rw [hr] at hrun
        obtain ⟨o, t', u, hm, hfail⟩ := (hk a t hr).fault f v hrun
        exact ⟨o, t', u, List.mem_append_right _ (by rwa [after_ok hr]), hfail⟩
    | error e t =>
        rw [hr] at hrun
        cases hrun
        obtain ⟨o, t', u, hm, hfail⟩ := h.fault f _ hr
        exact ⟨o, t', u, List.mem_append_left _ hm, hfail⟩

theorem reports_op (o : Op) : Reports [.op o s] o.run s where
  fails o' t e u hm hrun := by
    cases List.mem_singleton.mp hm
    exact ⟨u, hrun⟩
  fault f v hrun := ⟨o, s, v, List.mem_singleton_self _, hrun⟩

theorem Reports.asCall {m : Run α} {l : List Entry} (h : Reports l m s.deeper) :
    Reports l (Script.asCall m) s where
  fails o t e u hm hrun := by
    obtain ⟨v, hv⟩ := h.fails o t e u hm hrun
    exact ⟨v.shallower, by rw [asCall_run, hv]; rfl⟩
  fault f v hrun := by
    obtain ⟨t, ht, -⟩ := asCall_eq_error hrun
    exact h.fault f t ht

theorem Course.reports {n : Nat} (ih : ∀ j s, Reports (Job.log n j s) (j.run n) s) (p : Course α) :
    ∀ s, Reports (p.log (Job.run n) (Job.log n) s) (p.run (Job.run n)) s := by
  induction p with
  | ends a =>
      exact fun s => ⟨fun _ _ _ _ hm => (List.not_mem_nil hm).elim, fun _ _ h => by cases h⟩
  | step o next ihp => exact fun s => (reports_op o).bind fun a t _ => ihp a t
  | part j next ihp => exact fun s => (ih j s).bind fun a t _ => ihp a t
  | inCall stmts env next ihp => exact fun s => (ih _ s.deeper).asCall.bind fun a t _ => ihp a t

/-- **A log reports where its run fails.** -/
theorem Job.reports : ∀ (n : Nat) (j : Job) (s : Store), Reports (Job.log n j s) (j.run n) s
  | 0, j, s => by
      refine ⟨fun o t e u hm _ => ?_, fun f v h => ?_⟩
      · cases List.mem_singleton.mp hm
      · rw [Job.run_zero] at h
        cases h
  | n + 1, j, s => by
      have h := Course.reports (Job.reports n) (Course.ofJob j) s
      rw [← Job.run_succ] at h
      refine ⟨fun o t e u hm hrun => ?_, fun f v hrun => ?_⟩
      · rcases List.mem_cons.mp hm with hm | hm
        · cases hm
        · exact h.fails o t e u hm hrun
      · obtain ⟨o, t, u, hm, hfail⟩ := h.fault f v hrun
        exact ⟨o, t, u, List.mem_cons_of_mem _ hm, hfail⟩

end

/-! ### What is kept along a log -/

section
variable {K : Store → Store → Prop}

/-- What holds between the states that a run passes, its first store and its last. -/
structure KeptAlong (K : Store → Store → Prop) (l : List Entry) (s t : Store) : Prop where
  pairwise : l.Pairwise fun e f => K e.passed f.before ∧ K e.passed f.after
  own : ∀ e ∈ l, K e.before e.passed ∧ K e.passed e.after
  first : ∀ e ∈ l, K s e.before
  last : ∀ e ∈ l, K e.passed t
  ends : K s t

theorem KeptAlong.nil {s : Store} (h : K s s) : KeptAlong K [] s s :=
  ⟨.nil, fun _ he => (List.not_mem_nil he).elim, fun _ he => (List.not_mem_nil he).elim,
    fun _ he => (List.not_mem_nil he).elim, h⟩

/-- The log of one entry. -/
theorem KeptAlong.entry (refl : ∀ s, K s s) {e : Entry} (h : K e.before e.after)
    (hp : e.passed = e.before ∨ e.passed = e.after) : KeptAlong K [e] e.before e.after := by
  have own : K e.before e.passed ∧ K e.passed e.after := by
    rcases hp with hp | hp <;> rw [hp]
    · exact ⟨refl _, h⟩
    · exact ⟨h, refl _⟩
  exact ⟨List.pairwise_singleton _ _, by simpa using own, by simpa using refl _,
    by simpa using own.2, h⟩

variable (trans : ∀ s t u, K s t → K t u → K s u)
include trans

theorem KeptAlong.after {l : List Entry} {s t : Store} (h : KeptAlong K l s t) :
    ∀ e ∈ l, K s e.passed ∧ K s e.after := by
  intro e he
  have passed := trans _ _ _ (h.first e he) (h.own e he).1
  exact ⟨passed, trans _ _ _ passed (h.own e he).2⟩

theorem KeptAlong.append {l l' : List Entry} {s t u : Store} (h : KeptAlong K l s t)
    (h' : KeptAlong K l' t u) : KeptAlong K (l ++ l') s u where
  pairwise := List.pairwise_append.mpr ⟨h.pairwise, h'.pairwise, fun e he f hf =>
    ⟨trans _ _ _ (h.last e he) (h'.first f hf), trans _ _ _ (h.last e he) (h'.after trans f hf).2⟩⟩
  own e he := (List.mem_append.mp he).elim (h.own e) (h'.own e)
  first e he := (List.mem_append.mp he).elim (h.first e) fun he =>
    trans _ _ _ h.ends (h'.first e he)
  last e he := (List.mem_append.mp he).elim (fun he => trans _ _ _ (h.last e he) h'.ends)
    (h'.last e)
  ends := trans _ _ _ h.ends h'.ends

/-- The ends of a log may be moved apart. -/
theorem KeptAlong.imp {l : List Entry} {s s' t t' : Store} (h : KeptAlong K l s t) (hs : K s' s)
    (ht : K t t') : KeptAlong K l s' t' where
  pairwise := h.pairwise
  own := h.own
  first e he := trans _ _ _ hs (h.first e he)
  last e he := trans _ _ _ (h.last e he) ht
  ends := trans _ _ _ hs (trans _ _ _ h.ends ht)

variable (refl : ∀ s, K s s) (deeper : ∀ s : Store, K s s.deeper)
  (shallower : ∀ s : Store, K s s.shallower)
include refl deeper shallower

theorem Course.keptAlong {n : Nat} {α : Type}
    (ih : ∀ j s, (∀ o t, .op o t ∈ Job.log n j s → K t (storeOf (o.run t))) →
      KeptAlong K (Job.log n j s) s (storeOf (j.run n s))) (p : Course α) :
    ∀ s, (∀ o t, .op o t ∈ p.log (Job.run n) (Job.log n) s → K t (storeOf (o.run t))) →
      KeptAlong K (p.log (Job.run n) (Job.log n) s) s (storeOf (p.run (Job.run n) s)) := by
  -- a part of a course, by its log and its run, and what follows where it has a result
  have sequence : ∀ {β : Type} (m : Run β) (l : List Entry) (next : β → Course α) (s : Store),
      KeptAlong K l s (storeOf (m s)) →
      (∀ a t, m s = .ok a t → KeptAlong K ((next a).log (Job.run n) (Job.log n) t) t
        (storeOf ((next a).run (Job.run n) t))) →
      KeptAlong K (l ++ Script.after m s fun a t => (next a).log (Job.run n) (Job.log n) t) s
        (storeOf ((m >>= fun a => (next a).run (Job.run n)) s)) := by
    intro β m l next s hl hnext
    rw [Script.run_bind]
    cases hm : m s with
    | ok a t =>
        rw [hm] at hl
        rw [after_ok hm]
        exact hl.append trans (hnext a t hm)
    | error e t =>
        rw [hm] at hl
        rw [after_error hm, List.append_nil]
        exact hl
  induction p with
  | ends a => exact fun s _ => .nil (refl s)
  | step o next ihp =>
      intro s h
      have ho := h o s List.mem_cons_self
      exact sequence o.run [.op o s] next s (KeptAlong.entry refl (e := .op o s) ho (.inr rfl))
        fun a t hrun => ihp a t fun o' t' hm =>
          h o' t' (List.mem_cons_of_mem _ (by rwa [after_ok hrun]))
  | part j next ihp =>
      intro s h
      refine sequence (j.run n) _ next s (ih j s fun o t hm => h o t (List.mem_append_left _ hm))
        fun a t hrun => ihp a t fun o' t' hm =>
          h o' t' (List.mem_append_right _ (by rwa [after_ok hrun]))
  | inCall stmts env next ihp =>
      intro s h
      refine sequence (asCall ((Job.execAll stmts env).run n)) _ next s ?_ fun a t hrun =>
        ihp a t fun o' t' hm => h o' t' (List.mem_append_right _ (by rwa [after_ok hrun]))
      have hbody := ih (.execAll stmts env) s.deeper fun o t hm =>
        h o t (List.mem_append_left _ hm)
      refine hbody.imp trans (deeper s) ?_
      rw [asCall_run]
      cases (Job.execAll stmts env).run n s.deeper <;> exact shallower _

/-- **What every operation keeps is kept along a log**, from each state that is passed to all later
ones. -/
theorem Job.keptAlong : ∀ (n : Nat) (j : Job) (s : Store),
    (∀ o t, .op o t ∈ Job.log n j s → K t (storeOf (o.run t))) →
      KeptAlong K (Job.log n j s) s (storeOf (j.run n s))
  | 0, j, s, _ => by
      have hend : K s (storeOf (j.run 0 s)) := by
        rw [Job.run_zero]
        exact refl s
      exact KeptAlong.entry refl (e := .job 0 j s) hend (.inl rfl)
  | n + 1, j, s, h => by
      have hcourse := Course.keptAlong trans refl deeper shallower (Job.keptAlong n)
        (Course.ofJob j) s fun o t hm => h o t (List.mem_cons_of_mem _ hm)
      rw [← Job.run_succ] at hcourse
      refine ⟨List.pairwise_cons.mpr ⟨fun e he => ⟨hcourse.first e he, (hcourse.after trans e he).2⟩,
        hcourse.pairwise⟩, fun e he => ?_, fun e he => ?_, fun e he => ?_, hcourse.ends⟩
      · rcases List.mem_cons.mp he with rfl | he
        · exact ⟨refl s, hcourse.ends⟩
        · exact hcourse.own e he
      · rcases List.mem_cons.mp he with rfl | he
        · exact refl s
        · exact hcourse.first e he
      · rcases List.mem_cons.mp he with rfl | he
        · exact hcourse.ends
        · exact hcourse.last e he

end

end Stencil.Script
