import Stencil.Proofs.Jobs.Away
import Stencil.Proofs.Jobs.Blocks

/-!
# Jobs — scopes that are bypassed

A scope is reached from places that see it, and these are inside the job that opened it, or inside
functions that were made there.  So when the job is over, only calls of such functions come back to it.

* `Bypasses`: all that is done is done where a scope is not seen, other than in calls of functions
  that see it.
* `Definition.goesOn`: when a job is over that has opened a scope, all that is left to do bypasses it.
* `Definition.settled`: the variables of the scope then stay as they are, until a function that sees
  the scope assigns to them.
-/

namespace Stencil.Script

/-! ### What bypasses a scope -/

/-- **Bypassing a scope**: all is done where it is not seen, other than in calls of functions that see
it. -/
inductive Bypasses (r : Ref) : List Entry → Prop where
  | nil : Bypasses r []
  | entry {e : Entry} {l : List Entry} (h : ¬ Sees r e.env) (t : Bypasses r l) : Bypasses r (e :: l)
  | call {n : Nat} {f : Definition} {site : Env} {arguments : List Value} {s : Store} {l : List Entry}
      (h : Sees r site) (t : Bypasses r l) : Bypasses r (Job.log n (.invoke f site arguments) s ++ l)

section
variable {r : Ref} {n : Nat} {α : Type}

theorem Bypasses.append {l l' : List Entry} (h : Bypasses r l) (h' : Bypasses r l') :
    Bypasses r (l ++ l') := by
  induction h with
  | nil => exact h'
  | entry he _ ih => exact .entry he ih
  | call hs _ ih =>
      rw [List.append_assoc]
      exact .call hs ih

theorem Job.mem_log (n : Nat) (j : Job) (s : Store) : .job n j s ∈ Job.log n j s := by
  cases n <;> exact List.mem_cons_self

/-- What assigns to a variable of a scope that is bypassed does so in a call of a function that sees
it. -/
theorem Bypasses.assigned {name : String} {l : List Entry} {e : Entry} (h : Bypasses r l) (he : e ∈ l)
    (ha : e.Assigns r name) : ∃ n f site arguments s, .job n (.invoke f site arguments) s ∈ l ∧
      Sees r site ∧ e ∈ Job.log n (.invoke f site arguments) s := by
  induction h with
  | nil => cases he
  | entry hsees _ ih =>
      rcases List.mem_cons.mp he with rfl | he
      · exact absurd ha.sees hsees
      · obtain ⟨n, f, site, arguments, s, hm, h⟩ := ih he
        exact ⟨n, f, site, arguments, s, List.mem_cons_of_mem _ hm, h⟩
  | @call n f site arguments s l hsees _ ih =>
      rcases List.mem_append.mp he with he | he
      · exact ⟨n, f, site, arguments, s, List.mem_append_left _ (Job.mem_log n _ s), hsees, he⟩
      · obtain ⟨n, f, site, arguments, s, hm, h⟩ := ih he
        exact ⟨n, f, site, arguments, s, List.mem_append_right _ hm, h⟩

theorem bypasses_after {m : Run α} {s : Store} {next : α → Store → List Entry}
    (h : ∀ a t, m s = .ok a t → Bypasses r (next a t)) : Bypasses r (Script.after m s next) := by
  cases hm : m s with
  | ok a t => rw [after_ok hm]; exact h a t hm
  | error e t => rw [after_error hm]; exact .nil

section
variable (ih : ∀ j s, r < s.scopes.size → j.Away r (fun _ => True) → Bypasses r (Job.log n j s))
  {p : Course α} {Q : α → Prop}
include ih

theorem Course.bypasses (hp : p.Away r (fun _ => True) Q) : ∀ s : Store, r < s.scopes.size →
    Bypasses r (p.log (Job.run n) (Job.log n) s) := by
  induction p with
  | ends a => exact fun s _ => .nil
  | step o next ihp =>
      refine fun s hs => .entry hp.1 (bypasses_after fun a t hr => ?_)
      have finds : o.Finds r (fun _ => True) a :=
        Op.finds hr hp.1 (fun hle => absurd hs (Nat.not_lt.mpr hle)) fun _ _ _ => trivial
      exact ihp a (hp.2 a finds) t (Nat.lt_of_lt_of_le hs (Op.effect hr).scopes.grows.size)
  | part j next ihp =>
      refine fun s hs => (ih j s hs hp.1).append (bypasses_after fun a t hr => ?_)
      exact ihp a (hp.2 a) t (Nat.lt_of_lt_of_le hs (Job.grows hr).size)
  | inCall stmts env next ihp =>
      refine fun s hs => (ih (.execAll stmts env) s.deeper hs hp.1).append
        (bypasses_after fun c t hr => ?_)
      obtain ⟨u, hbody, rfl⟩ := asCall_eq_ok hr
      have grows := Job.grows (j := .execAll stmts env) hbody
      exact ihp c (hp.2 c) u.shallower (Nat.lt_of_lt_of_le hs grows.size)

end

/-- A job that sees a scope and is away from it all the same is a call. -/
theorem Job.Away.invoke {j : Job} (h : j.Away r (fun _ => True)) (hs : Sees r j.env) :
    ∃ f site arguments, j = .invoke f site arguments := by
  cases j with
  | invoke f site arguments => exact ⟨f, site, arguments, rfl⟩
  | _ => exact absurd hs h

/-- **A job that is away from an open scope bypasses it.** -/
theorem Job.bypasses : ∀ (n : Nat) (j : Job) (s : Store), r < s.scopes.size →
    j.Away r (fun _ => True) → Bypasses r (Job.log n j s) := by
  intro n
  induction n with
  | zero =>
      intro j s _ hj
      by_cases hsees : Sees r j.env
      · obtain ⟨f, site, arguments, rfl⟩ := hj.invoke hsees
        exact .call (n := 0) hsees .nil
      · exact .entry hsees .nil
  | succ n ih =>
      intro j s hs hj
      by_cases hsees : Sees r j.env
      · obtain ⟨f, site, arguments, rfl⟩ := hj.invoke hsees
        rw [← List.append_nil (Job.log _ _ _)]
        exact .call hsees .nil
      · exact .entry hsees (Course.bypasses ih (Course.away_ofJob hsees) s hs)

end

/-! ### After the job that opens a scope -/

theorem append_eq_append_cons {α : Type} {l l' before after : List α} {e : α}
    (h : l ++ l' = before ++ e :: after) :
    (∃ rest, l = before ++ e :: rest ∧ after = rest ++ l') ∨
      ∃ front, before = l ++ front ∧ l' = front ++ e :: after := by
  rcases List.append_eq_append_iff.mp h with ⟨front, hb, hl⟩ | ⟨rest, hl, hrest⟩
  · exact .inr ⟨front, hb, hl⟩
  · cases rest with
    | nil => exact .inr ⟨[], by simpa using hl.symm, by simpa using hrest.symm⟩
    | cons x rest =>
        rw [List.cons_append, List.cons.injEq] at hrest
        obtain ⟨rfl, hrest⟩ := hrest
        exact .inl ⟨rest, hl, hrest⟩

/-- Where a log goes on with all of a job, and then bypasses a scope. -/
def GoesOn (r : Ref) (n : Nat) (j : Job) (s : Store) (after : List Entry) : Prop :=
  ∃ rest, .job n j s :: after = Job.log n j s ++ rest ∧ Bypasses r rest

/-- Whether jobs that find a scope unopened do not see it. -/
def Unseen (r : Ref) (l : List Entry) : Prop :=
  ∀ n j s, .job n j s ∈ l → s.scopes.size ≤ r → ¬ Sees r j.env

/-- Whether a log does so wherever a job stands in it. -/
def Continues (r : Ref) (n : Nat) (j : Job) (s : Store) (l : List Entry) : Prop :=
  Unseen r l → ∀ before after, l = before ++ .job n j s :: after → GoesOn r n j s after

section
variable {r : Ref} {n k : Nat} {j : Job} {s : Store}

theorem GoesOn.append {after l : List Entry} (h : GoesOn r k j s after) (hl : Bypasses r l) :
    GoesOn r k j s (after ++ l) := by
  obtain ⟨rest, hrest, bypasses⟩ := h
  refine ⟨rest ++ l, ?_, bypasses.append hl⟩
  rw [← List.cons_append, hrest, List.append_assoc]

theorem Unseen.left {l l' : List Entry} (h : Unseen r (l ++ l')) : Unseen r l :=
  fun n j s hm => h n j s (List.mem_append_left _ hm)

theorem Unseen.right {l l' : List Entry} (h : Unseen r (l ++ l')) : Unseen r l' :=
  fun n j s hm => h n j s (List.mem_append_right _ hm)

variable (opens : ∃ e ∈ Job.log k j s, r < e.passed.scopes.size)
include opens

/-- Once a job is over that a log goes on with, its scope is open. -/
theorem GoesOn.size {before after l : List Entry} {σ τ : Scopes} (h : GoesOn r k j s after)
    (hl : l = before ++ .job k j s :: after) (path : Leads l σ τ) : r < τ.size := by
  obtain ⟨e, he, hsize⟩ := opens
  obtain ⟨rest, hrest, -⟩ := h
  have hm : e ∈ l := by
    rw [hl, hrest]
    exact List.mem_append_right _ (List.mem_append_left _ he)
  exact Nat.lt_of_lt_of_le hsize (path.grows_passed hm).size

/-- A part of a course, and what follows it: the job is in the part, and then the scope is open when
that is over, or it is behind it. -/
theorem Continues.bind {α : Type} {m : Run α} {l : List Entry} {next : α → Store → List Entry}
    {s' : Store} (h : Continues r k j s l) (path : Leads l s'.scopes (storeOf (m s')).scopes)
    (hbypasses : .job k j s ∈ l → ∀ a t, r < t.scopes.size → Bypasses r (next a t))
    (hnext : ∀ a t, m s' = .ok a t → Continues r k j s (next a t)) :
    Continues r k j s (l ++ Script.after m s' next) := by
  intro unseen before after hall
  rcases append_eq_append_cons hall with ⟨rest, hl, rfl⟩ | ⟨front, rfl, hl⟩
  · have goes := h unseen.left before rest hl
    refine goes.append (bypasses_after fun a t hr => ?_)
    rw [hr] at path
    exact hbypasses (hl ▸ List.mem_append_cons_self) a t (goes.size opens hl path)
  · have hm : .job k j s ∈ Script.after m s' next := hl ▸ List.mem_append_cons_self
    obtain ⟨a, t, hr, -⟩ := mem_after hm
    have unseen' := unseen.right
    rw [after_ok hr] at hl unseen'
    exact hnext a t hr unseen' front after hl

theorem Course.continues (hs : s.scopes.size ≤ r)
    (ih : ∀ j' s', Continues r k j s (Job.log n j' s')) {α : Type} {p : Course α} {Q : α → Prop}
    (hp : p.Away r (fun _ => True) Q) : ∀ s', Continues r k j s (p.log (Job.run n) (Job.log n) s') := by
  induction p with
  | ends a => exact fun s' _ before after h => absurd h (by simp [Course.log])
  | step o next ihp =>
      intro s'
      have other : .job k j s ∉ [Entry.op o s'] := fun hm => by cases List.mem_singleton.mp hm
      refine Continues.bind (l := [.op o s']) opens
        (fun _ before after h => absurd (h ▸ List.mem_append_cons_self) other) ⟨rfl, rfl⟩
        (fun hm => absurd hm other) fun a t hr unseen before after h => ?_
      -- where the job comes later, the operation does not open the scope
      have path := Course.leads (Job.leads n) (next a) t
      have ht : t.scopes.size ≤ r := Nat.le_trans
        (path.grows_before (e := .job k j s) (h ▸ List.mem_append_cons_self)).size hs
      have finds : o.Finds r (fun _ => True) a :=
        Op.finds hr hp.1 (fun _ => ht) fun _ _ _ => trivial
      exact ihp a (hp.2 a finds) t unseen before after h
  | part j' next ihp =>
      exact fun s' => (ih j' s').bind opens (Job.leads n j' s')
        (fun _ a t => Course.bypasses (Job.bypasses n) (hp.2 a) t) fun a t _ => ihp a (hp.2 a) t
  | inCall stmts env next ihp =>
      intro s'
      refine (ih (.execAll stmts env) s'.deeper).bind opens ?_
        (fun _ c t => Course.bypasses (Job.bypasses n) (hp.2 c) t) fun c t _ => ihp c (hp.2 c) t
      rw [scopes_asCall]
      exact Job.leads n (.execAll stmts env) s'.deeper

/-- **Where a job stands in a log, the log goes on with all of it, and then bypasses the scope** that
the job has opened. -/
theorem Job.continues (hs : s.scopes.size ≤ r) :
    ∀ (n : Nat) (j' : Job) (s' : Store), Continues r k j s (Job.log n j' s') := by
  intro n
  induction n with
  | zero =>
      intro j' s' _ before after h
      cases before with
      | nil =>
          cases h
          exact ⟨[], rfl, .nil⟩
      | cons x before => exact absurd (List.cons.inj h).2 (by simp)
  | succ n ih =>
      intro j' s' unseen before after h
      cases before with
      | nil =>
          obtain ⟨he, rfl⟩ := List.cons.inj h
          cases he
          exact ⟨[], (List.append_nil _).symm, .nil⟩
      | cons x before =>
          have path := Job.leads (n + 1) j' s'
          have earlier : s'.scopes.size ≤ s.scopes.size :=
            (path.grows_before (e := .job k j s) (h ▸ List.mem_append_cons_self)).size
          have head : ¬ Sees r j'.env :=
            unseen (n + 1) j' s' List.mem_cons_self (Nat.le_trans earlier hs)
          exact Course.continues opens hs ih (Course.away_ofJob head) s'
            (fun n j s hm => unseen n j s (List.mem_cons_of_mem _ hm)) before after (List.cons.inj h).2

end

section
variable {d : Definition} {steps : Nat} {data : Json.Document} {before after : List Entry}

/-- The log of a call from outside begins with the scopes of the language. -/
theorem Definition.leads (d : Definition) (steps : Nat) (data : Json.Document) :
    ∃ τ, Leads (d.log steps data) #[globalScope] τ := by
  obtain ⟨v, s, himport, -⟩ := grown_importDocument data Store.initial
  rw [Definition.log, after_ok himport, ← (importDocument_initial himport).1]
  exact ⟨_, Job.leads steps _ s⟩

/-- **When a job is over that has opened a scope, all that is left to do bypasses it.** -/
theorem Definition.goesOn {k : Nat} {j : Job} {s : Store}
    (h : d.log steps data = before ++ .job k j s :: after)
    (opens : ∃ e ∈ Job.log k j s, s.scopes.size < e.passed.scopes.size) :
    ¬ Sees s.scopes.size j.env ∧ GoesOn s.scopes.size k j s after := by
  have mem : .job k j s ∈ d.log steps data := h ▸ List.mem_append_cons_self
  have unseen : Unseen s.scopes.size (d.log steps data) :=
    fun n j' s' hm hle => Definition.not_sees hm hle
  refine ⟨unseen k j s mem (Nat.le_refl _), ?_⟩
  obtain ⟨v, s', himport, -⟩ := mem_log mem
  rw [Definition.log, after_ok himport] at h unseen
  exact Job.continues opens (Nat.le_refl _) steps _ s' unseen before after h

end

/-! ### Variables of scopes that are bypassed -/

/-- **What is left of a variable**: it is assigned to only in calls of functions that see its scope, and
never if it is a constant; and until then its name is found with its value from all places inside its
scope that do not bind the name again. -/
structure Settled (r : Ref) (name : String) (v : Variable) (later : List Entry) : Prop where
  bypasses : Bypasses r later
  assigned : ∀ e ∈ later, e.Assigns r name →
    ∃ n f site arguments s, .job n (.invoke f site arguments) s ∈ later ∧ Sees r site ∧
      e ∈ Job.log n (.invoke f site arguments) s
  found : ∀ before e after, later = before ++ e :: after → (∀ x ∈ before, ¬ x.Assigns r name) →
    ∀ inner frame outer, frame.scope = r →
      (∀ other ∈ inner, (e.before.scope other.scope).get? name = none) →
        e.before.find? name (inner ++ frame :: outer) = some (r, v)
  constant : v.mutable = false → ∀ e ∈ later, ¬ e.Assigns r name

theorem exists_first {α : Type} {P : α → Prop} {l : List α} {a : α} (ha : a ∈ l) (h : P a) :
    ∃ before b after, l = before ++ b :: after ∧ P b ∧ ∀ c ∈ before, ¬ P c := by
  classical
  have found : (l.find? fun b => decide (P b)).isSome :=
    List.find?_isSome.mpr ⟨a, ha, decide_eq_true h⟩
  obtain ⟨b, hb⟩ := Option.isSome_iff_exists.mp found
  obtain ⟨hb, before, after, hl, hno⟩ := List.find?_eq_some_iff_append.mp hb
  exact ⟨before, b, after, hl, of_decide_eq_true hb, fun c hc => by simpa using hno c hc⟩

section
variable {d : Definition} {steps : Nat} {data : Json.Document} {r : Ref} {l : List Entry}

/-- In a log that bypasses a scope no names are bound in it without asking. -/
theorem Bypasses.not_defines (h : Bypasses r l) (hd : d.Formed) (hr : r ≠ 0)
    (hl : ∀ e ∈ l, e ∈ d.log steps data ∧ r < e.before.scopes.size) : ∀ e ∈ l, ¬ e.Defines r := by
  induction h with
  | nil => exact fun e he => absurd he List.not_mem_nil
  | @entry e l hsees _ ih =>
      obtain ⟨-, hl⟩ := List.forall_mem_cons.mp hl
      refine List.forall_mem_cons.mpr ⟨fun hdef => ?_, ih hl⟩
      cases e with
      | job => exact hdef
      | op o s =>
          cases o with
          | define env name value m => exact ownScope_ne hsees hr hdef
          | _ => exact hdef
  | @call n f site arguments s l _ _ ih =>
      obtain ⟨hcall, hl⟩ := List.forall_mem_append.mp hl
      refine List.forall_mem_append.mpr ⟨fun e he hdef => ?_, ih hl⟩
      -- the call binds names anew only in scopes that are opened in it
      obtain ⟨hm, hsize⟩ := hcall _ (Job.mem_log n _ s)
      obtain ⟨hi, formed⟩ := d.holds_log hd steps data _ hm
      have holds := (Horizon.at s).sound.holds (n := n) (j := .invoke f site arguments)
        (Horizon.inv_at hi) formed (fun e _ => by cases e <;> trivial) e he
      cases e with
      | job => exact hdef
      | op o z =>
          cases o with
          | define env name value m =>
              obtain ⟨-, -, hbase, -⟩ := holds
              rw [show ownScope env = r from hdef] at hbase
              exact absurd hsize (Nat.not_lt.mpr hbase)
          | _ => exact hdef

/-- **In a log that bypasses a scope its variables are settled.** -/
theorem Bypasses.settled {name : String} {v : Variable} {σ τ : Scopes} (h : Bypasses r l)
    (hd : d.Formed) (hr : r ≠ 0) (path : Leads l σ τ) (hsize : r < σ.size)
    (hl : ∀ e ∈ l, e ∈ d.log steps data) (hv : (σ.scope r).get? name = some v) :
    Settled r name v l := by
  have defines := h.not_defines hd hr fun e he =>
    ⟨hl e he, Nat.lt_of_lt_of_le hsize (path.grows_before he).size⟩
  have stays : ∀ before e after, l = before ++ e :: after → (∀ x ∈ before, ¬ x.Assigns r name) →
      (Scopes.scope e.before.scopes r).get? name = some v := by
    rintro before e after rfl hno
    exact path.front.keeps (fun x hx => defines x (List.mem_append_left _ hx)) hno hv
  refine ⟨h, fun e he => h.assigned he, fun before e after heq hno inner frame outer hframe hinner => ?_,
    fun hconst e he hassigns => ?_⟩
  · have hbound := stays before e after heq hno
    subst hframe
    rw [Store.find?_eq]
    exact Scopes.find?_append hinner hbound
  · -- the first entry that assigns finds a variable that it cannot assign to
    obtain ⟨before, x, after, heq, hassigns, hno⟩ := exists_first he hassigns
    have hbound := stays before x after heq hno
    obtain ⟨w, hw, hm⟩ := hassigns.bound
    rw [hbound] at hw
    cases hw
    rw [hconst] at hm
    cases hm

end

section
variable {d : Definition} {steps : Nat} {data : Json.Document} {n : Nat} {j : Job} {s : Store}

/-- The scopes of the language are there from the beginning. -/
theorem Definition.size_ne_zero {before after : List Entry}
    (h : d.log steps data = before ++ .job n j s :: after) : s.scopes.size ≠ 0 := by
  obtain ⟨τ, path⟩ := d.leads steps data
  rw [h] at path
  exact Nat.ne_of_gt path.front.grows.size

/-- **Once a job is over, the variables of a scope are settled** that all that is left to do bypasses. -/
theorem Definition.settled {a : j.Result} {u : Store} {r : Ref} {name : String}
    {v : Variable} {front later : List Entry} (hd : d.Formed)
    (hlog : d.log steps data = front ++ (Job.log n j s ++ later)) (hrun : j.run n s = .ok a u)
    (h : Bypasses r later) (hr : r ≠ 0) (hsize : r < u.scopes.size)
    (hv : (u.scope r).get? name = some v) : Settled r name v later := by
  obtain ⟨τ, path⟩ := d.leads steps data
  rw [hlog] at path
  obtain ⟨υ, -, path⟩ := leads_append.mp path
  have mem : ∀ e ∈ later, e ∈ d.log steps data := fun e he => by
    rw [hlog]
    exact List.mem_append_right _ (List.mem_append_right _ he)
  exact h.settled hd hr (path.past_job hrun) hsize mem hv

end

end Stencil.Script
