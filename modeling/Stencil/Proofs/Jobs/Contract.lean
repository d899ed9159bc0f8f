import Stencil.Proofs.Jobs.Log

/-!
# Jobs — contracts

A contract says what every job and every operation may rely on and what it gives.  It is sound if
each operation keeps to it, and each job does whose parts do; then every run keeps to it, and all
entries of its log find what they rely on (`Contract.Sound.log`).

An operation need only keep to a contract where it is trusted.  What is said of a log then holds up
to the first operation that is not.
-/

namespace Stencil.Script

/-- **Contracts**: what holds of every store, what is kept between a store and a later one, what jobs
and operations rely on and what they give with their results, and where an operation is trusted. -/
structure Contract where
  inv : Store → Prop
  keeps : Store → Store → Prop
  pre : Job → Store → Prop
  opPre : Op → Store → Prop
  post : (j : Job) → Store → j.Result → Store → Prop
  opPost : (o : Op) → Store → o.Result → Store → Prop
  trusts : Op → Store → Prop

namespace Contract
variable (C : Contract) {α β : Type} {Q : α → Store → Prop}

/-- Whether all that a course consists of finds what it relies on, if all before it keeps to the
contract, and the course ends as it should. -/
def Follows (Q : α → Store → Prop) : Course α → Store → Prop
  | .ends a, s => Q a s
  | .step o next, s =>
    C.opPre o s ∧ ∀ a t, C.inv t → C.keeps s t → C.opPost o s a t → Follows Q (next a) t
  | .part j next, s =>
    C.pre j s ∧ ∀ a t, C.inv t → C.keeps s t → C.post j s a t → Follows Q (next a) t
  | .inCall stmts env next, s =>
    C.pre (.execAll stmts env) s.deeper ∧ ∀ c t, C.inv t → C.keeps s t →
      C.post (.execAll stmts env) s.deeper c t → Follows Q (next c) t.shallower

/-- What holds of an entry of a log. -/
def Holds : Entry → Prop
  | .op o s => C.inv s ∧ C.opPre o s
  | .job _ j s => C.inv s ∧ C.pre j s

/-- Whether an entry is trusted. -/
def Trusts : Entry → Prop
  | .op o s => C.trusts o s
  | .job _ _ _ => True

/-- Whether what is kept composes, and does not depend on how many calls are open. -/
structure Steady : Prop where
  refl : ∀ s, C.keeps s s
  trans : ∀ s t u, C.keeps s t → C.keeps t u → C.keeps s u
  deeper : ∀ s, C.inv s → C.inv s.deeper ∧ C.keeps s s.deeper
  shallower : ∀ s, C.inv s → C.inv s.shallower ∧ C.keeps s s.shallower

/-- **Soundness.** -/
structure Sound : Prop extends C.Steady where
  op : ∀ o s a t, C.inv s → C.opPre o s → C.trusts o s → o.run s = .ok a t →
    C.inv t ∧ C.keeps s t ∧ C.opPost o s a t
  course : ∀ j s, C.inv s → C.pre j s → C.Follows (C.post j s) (.ofJob j) s

/-! ### Courses -/

variable {C} {s : Store}

theorem follows_pure {a : α} : C.Follows Q (pure a) s ↔ Q a s := Iff.rfl

theorem follows_perform {o : Op} {Q : o.Result → Store → Prop} (h : C.opPre o s)
    (hQ : ∀ a t, C.inv t → C.keeps s t → C.opPost o s a t → Q a t) :
    C.Follows Q (.perform o) s :=
  ⟨h, hQ⟩

theorem follows_fail {f : Fault} : C.Follows Q (.fail f) s ↔ C.opPre (.fail f) s :=
  and_iff_left fun e => e.elim

theorem follows_ite {c : Prop} [Decidable c] {p q : Course α} (hp : c → C.Follows Q p s)
    (hq : ¬ c → C.Follows Q q s) : C.Follows Q (if c then p else q) s := by
  split
  · exact hp ‹_›
  · exact hq ‹_›

theorem Follows.imp {Q' : α → Store → Prop} {p : Course α} (hQ : ∀ a t, Q a t → Q' a t)
    (h : C.Follows Q p s) : C.Follows Q' p s := by
  induction p generalizing s with
  | ends a => exact hQ a s h
  | step o next ih => exact ⟨h.1, fun a t hi hk hp => ih a (h.2 a t hi hk hp)⟩
  | part j next ih => exact ⟨h.1, fun a t hi hk hp => ih a (h.2 a t hi hk hp)⟩
  | inCall stmts env next ih => exact ⟨h.1, fun a t hi hk hp => ih a (h.2 a t hi hk hp)⟩

theorem follows_bind {p : Course α} {f : α → Course β} {Q : β → Store → Prop} :
    C.Follows Q (p >>= f) s ↔ C.Follows (fun a t => C.Follows Q (f a) t) p s := by
  induction p generalizing s with
  | ends a => rfl
  | step o next ih =>
      exact and_congr_right fun _ => forall₅_congr fun a t _ _ _ => ih a
  | part j next ih =>
      exact and_congr_right fun _ => forall₅_congr fun a t _ _ _ => ih a
  | inCall stmts env next ih =>
      exact and_congr_right fun _ => forall₅_congr fun a t _ _ _ => ih a

/-- What is kept is known at the end of a course as well. -/
theorem Steady.follows (hC : C.Steady) {p : Course α} (hi : C.inv s) (h : C.Follows Q p s) :
    C.Follows (fun a t => C.inv t ∧ C.keeps s t ∧ Q a t) p s := by
  suffices ∀ t, C.inv t → C.keeps s t → C.Follows Q p t →
      C.Follows (fun a u => C.inv u ∧ C.keeps s u ∧ Q a u) p t from this s hi (hC.refl s) h
  clear h
  induction p with
  | ends a => exact fun t hit hk hf => ⟨hit, hk, hf⟩
  | step o next ih =>
      exact fun t _ hk hf => ⟨hf.1, fun a u hiu hku hp =>
        ih a u hiu (hC.trans _ _ _ hk hku) (hf.2 a u hiu hku hp)⟩
  | part j next ih =>
      exact fun t _ hk hf => ⟨hf.1, fun a u hiu hku hp =>
        ih a u hiu (hC.trans _ _ _ hk hku) (hf.2 a u hiu hku hp)⟩
  | inCall stmts env next ih =>
      exact fun t _ hk hf => ⟨hf.1, fun c u hiu hku hp =>
        have hs := hC.shallower u hiu
        ih c _ hs.1 (hC.trans _ _ _ (hC.trans _ _ _ hk hku) hs.2) (hf.2 c u hiu hku hp)⟩

/-! ### Runs -/

/-- What a run with a log gives, if it keeps to a contract. -/
def Kept (C : Contract) (Q : α → Store → Prop) (l : List Entry) (m : Run α) (s : Store) : Prop :=
  Lasting C.Holds C.Trusts l ∧
    ((∀ e ∈ l, C.Trusts e) → ∀ a t, m s = .ok a t → C.inv t ∧ C.keeps s t ∧ Q a t)

theorem Sound.kept_bind (h : C.Sound) {Q' : β → Store → Prop} {l : List Entry} {m : Run α}
    {logs : α → Store → List Entry} {k : α → Run β} (hm : C.Kept Q l m s)
    (hk : ∀ a t, C.inv t → C.keeps s t → Q a t → C.Kept Q' (logs a t) (k a) t) :
    C.Kept Q' (l ++ Script.after m s logs) (m >>= k) s := by
  refine ⟨lasting_append.mpr ⟨hm.1, fun ht => ?_⟩, fun ht b u hb => ?_⟩
  · cases hr : m s with
    | ok a t =>
        obtain ⟨hi, hkeeps, hq⟩ := hm.2 ht a t hr
        rw [after_ok hr]
        exact (hk a t hi hkeeps hq).1
    | error e t => rw [after_error hr]; trivial
  · obtain ⟨a, t, hr, hb⟩ := bind_eq_ok hb
    rw [after_ok hr] at ht
    obtain ⟨hi, hkeeps, hq⟩ := hm.2 (fun e he => ht e (List.mem_append_left _ he)) a t hr
    obtain ⟨hi', hkeeps', hq'⟩ :=
      (hk a t hi hkeeps hq).2 (fun e he => ht e (List.mem_append_right _ he)) b u hb
    exact ⟨hi', h.trans s t u hkeeps hkeeps', hq'⟩

theorem Sound.kept_op (h : C.Sound) {o : Op} (hi : C.inv s) (hpre : C.opPre o s) :
    C.Kept (C.opPost o s) [.op o s] o.run s :=
  ⟨⟨⟨hi, hpre⟩, fun _ => trivial⟩, fun ht a t hr =>
    h.op o s a t hi hpre (ht _ (List.mem_singleton_self _)) hr⟩

theorem Sound.kept_asCall (h : C.Sound) {l : List Entry} {m : Run α} (hm : C.Kept Q l m s.deeper)
    (hi : C.inv s) : C.Kept (fun a u => ∃ t, C.inv t ∧ C.keeps s t ∧ Q a t ∧ u = t.shallower) l
      (asCall m) s := by
  refine ⟨hm.1, fun ht a u hr => ?_⟩
  obtain ⟨t, hm', rfl⟩ := asCall_eq_ok hr
  obtain ⟨hit, hkt, hq⟩ := hm.2 ht a t hm'
  have hst := h.trans _ _ _ (h.deeper s hi).2 hkt
  obtain ⟨hiu, hku⟩ := h.shallower t hit
  exact ⟨hiu, h.trans _ _ _ hst hku, t, hit, hst, hq, rfl⟩

theorem Sound.kept_course (h : C.Sound) {n : Nat}
    (ih : ∀ j s, C.inv s → C.pre j s → C.Kept (C.post j s) (Job.log n j s) (j.run n) s)
    (p : Course α) : ∀ s, C.inv s → C.Follows Q p s →
      C.Kept Q (p.log (Job.run n) (Job.log n) s) (p.run (Job.run n)) s := by
  induction p with
  | ends a =>
      refine fun s hi hf => ⟨trivial, fun _ b t hr => ?_⟩
      cases hr
      exact ⟨hi, h.refl s, hf⟩
  | step o next ihp =>
      exact fun s hi hf => h.kept_bind (h.kept_op hi hf.1) fun a t hit hkt hp =>
        ihp a t hit (hf.2 a t hit hkt hp)
  | part j next ihp =>
      exact fun s hi hf => h.kept_bind (ih j s hi hf.1) fun a t hit hkt hp =>
        ihp a t hit (hf.2 a t hit hkt hp)
  | inCall stmts env next ihp =>
      intro s hi hf
      refine h.kept_bind (h.kept_asCall (ih _ _ (h.deeper s hi).1 hf.1) hi) fun c u hiu _ hu => ?_
      obtain ⟨t, hit, hkt, hp, rfl⟩ := hu
      exact ihp c _ hiu (hf.2 c t hit hkt hp)

theorem Sound.kept (h : C.Sound) : ∀ (n : Nat) (j : Job) (s : Store), C.inv s → C.pre j s →
    C.Kept (C.post j s) (Job.log n j s) (j.run n) s
  | 0, j, s, hi, hpre => by
      refine ⟨⟨⟨hi, hpre⟩, fun _ => trivial⟩, fun _ a t hr => ?_⟩
      rw [Job.run_zero] at hr
      cases hr
  | n + 1, j, s, hi, hpre => by
      have hcourse := h.kept_course (h.kept n) (.ofJob j) s hi (h.course j s hi hpre)
      rw [← Job.run_succ] at hcourse
      exact ⟨⟨⟨hi, hpre⟩, fun _ => hcourse.1⟩, fun ht =>
        hcourse.2 fun e he => ht e (List.mem_cons_of_mem _ he)⟩

/-- **Every run keeps to a sound contract**, up to the first operation that is not trusted. -/
theorem Sound.log (h : C.Sound) {n : Nat} {j : Job} (hi : C.inv s) (hpre : C.pre j s) :
    Lasting C.Holds C.Trusts (Job.log n j s) :=
  (h.kept n j s hi hpre).1

/-- All entries find what they rely on, if every operation is trusted. -/
theorem Sound.holds (h : C.Sound) {n : Nat} {j : Job} (hi : C.inv s) (hpre : C.pre j s)
    (ht : ∀ e ∈ Job.log n j s, C.Trusts e) : ∀ e ∈ Job.log n j s, C.Holds e :=
  (h.log hi hpre).all ht

/-- A run with a result gives what it should. -/
theorem Sound.result (h : C.Sound) {n : Nat} {j : Job} (hi : C.inv s) (hpre : C.pre j s)
    (ht : ∀ e ∈ Job.log n j s, C.Trusts e) {a : j.Result} {t : Store} (hr : j.run n s = .ok a t) :
    C.inv t ∧ C.keeps s t ∧ C.post j s a t :=
  (h.kept n j s hi hpre).2 ht a t hr

end Contract

end Stencil.Script
