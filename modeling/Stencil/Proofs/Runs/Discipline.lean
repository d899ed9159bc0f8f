import Stencil.Proofs.Names.Mentions
import Stencil.Proofs.Runs.Scopes

/-!
# Runs — disciplines

What a run does with names is decided at a few places: where a scope is opened, where a name is
bound, assigned or looked up.  A `Discipline` says what is asked there: which mentions a script may
make, which names it may use although they are bound nowhere, and which faults it may end with.  It
can also hide a part of the scopes (`view`); runs must not depend on what is hidden.

`D.Holds m s Q` says that from `s` the run `m` ends in keeping with `D`: with the hidden part gone it
ends likewise; if it has a result, what `D` asks of stores holds again, the scopes have grown, and
`Q`; if it ends with a fault, `D` allows the fault.  The laws below give this for the primitives
and for the bindings that functions and loops make.

* `Holds.bind`, `Holds.reading`, `holds_onHeap`: how runs compose.
* `safe_lookUp`, `safe_assignName`, `safe_bindDeclared`, `safe_functionValue`,
  `safe_declareFunction`, `holds_bindRound`: names.
* `holds_enter`: after a call has bound what it binds, the body knows every name that it uses.
-/

namespace Stencil.Script

/-- **Disciplines.** -/
structure Discipline where
  /-- The mentions that a script may make. -/
  admits : Mention → Prop
  /-- The names that a script may use although they are bound nowhere. -/
  excused : String → Prop
  /-- The faults that a run may end with. -/
  allowed : Fault → Prop
  /-- The outermost scopes that a script must stand in. -/
  rooted : Env → Prop
  /-- What holds of the scopes all along. -/
  inv : Scopes → Prop
  /-- The scopes without what is hidden. -/
  view : Scopes → Scopes
  excused_lexical : ∀ {m n}, admits m → m.isLexical n → excused n
  allowed_other : ∀ {f : Fault}, f.kind ≠ .reference → allowed f
  allowed_stray : admits .stray → allowed .invalidTarget
  allowed_excused : ∀ {n}, excused n → allowed (.notDefined n)
  rooted_cons : ∀ {env} frame, rooted env → rooted (frame :: env)
  inv_opened : ∀ {σ}, inv σ → inv σ.opened
  inv_put : ∀ {σ m n}, inv σ → admits m → m.writes n → ∀ r v, inv (σ.put r n v)
  size_view : ∀ {σ}, inv σ → (view σ).size = σ.size
  view_opened : ∀ {σ}, inv σ → view σ.opened = (view σ).opened
  view_put : ∀ {σ m n}, inv σ → admits m → m.writes n →
    ∀ r v, view (σ.put r n v) = (view σ).put r n v
  get?_view : ∀ {σ m n}, inv σ → admits m → m.writes n →
    ∀ r, ((view σ).scope r).get? n = (σ.scope r).get? n
  value_view : ∀ {σ env}, inv σ → rooted env →
    ∀ n, ((view σ).find? n env).map (·.2.value) = (σ.find? n env).map (·.2.value)

namespace Discipline

variable (D : Discipline)

/-- Whether a script may declare or assign a name. -/
def Writable (n : String) : Prop :=
  ∃ m, D.admits m ∧ m.writes n

/-- Whether a name may be used at a place. -/
def Knows (σ : Scopes) (env : Env) (n : String) : Prop :=
  D.excused n ∨ (σ.find? n env).isSome

/-- Whether a place is one that scripts run at. -/
structure Place (σ : Scopes) (env : Env) : Prop where
  supports : σ.Supports env
  rooted : D.rooted env

/-- Whether a script with the given mentions and uses can run at a place. -/
structure Ready (σ : Scopes) (env : Env) (mentions : List Mention) (uses : List String) : Prop
    extends D.Place σ env where
  admits : ∀ m ∈ mentions, D.admits m
  knows : ∀ n ∈ uses, D.Knows σ env n

/-- What holds of stores all along: functions can run where they were made. -/
structure Good (s : Store) : Prop where
  inv : D.inv s.scopes
  closures : ∀ d env, .closure d env ∈ s.functions →
    D.Ready s.scopes env d.mentions (d.unnamed.uses [])

/-- A store without what is hidden. -/
def seen (s : Store) : Store :=
  s.withScopes (D.view s.scopes)

/-- **Runs in keeping with a discipline.** -/
structure Holds {α : Type} (m : Run α) (s : Store) (Q : α → Store → Prop) : Prop where
  seen : m (D.seen s) = mapStore D.seen (m s)
  ok : ∀ a t, m s = .ok a t → D.Good t ∧ Scopes.Grows s.scopes t.scopes ∧ Q a t
  fault : ∀ f t, m s = .error (.fault f) t → D.allowed f

/-- Runs in keeping with a discipline, whatever their result. -/
abbrev Safe {α : Type} (m : Run α) (s : Store) : Prop :=
  D.Holds m s fun _ _ => True

variable {D}

/-! ### Places and readiness -/

section
variable {σ τ : Scopes} {env : Env} {n : String}

theorem Knows.mono (h : D.Knows σ env n) (g : σ.Grows τ) : D.Knows τ env n :=
  h.imp_right (Scopes.find?_grows g)

theorem Knows.inside (h : D.Knows σ env n) (frame : Frame) : D.Knows σ (frame :: env) n :=
  h.imp_right fun h => Scopes.isSome_find?_cons.mpr (.inr h)

theorem Knows.of_bound (p : D.Place σ env) {r : Ref} (hb : Scopes.Binds env r)
    (h : ((σ.scope r).get? n).isSome) : D.Knows σ env n :=
  .inr (p.supports.find?_of_bound hb h)

theorem Place.mono (h : D.Place σ env) (g : σ.Grows τ) : D.Place τ env :=
  ⟨h.supports.mono g, h.rooted⟩

theorem Place.opened (h : D.Place σ env) (ofFunction : Bool) :
    D.Place σ.opened (⟨σ.size, ofFunction⟩ :: env) :=
  ⟨h.supports.opened ofFunction, D.rooted_cons _ h.rooted⟩

variable {mentions mentions' : List Mention} {uses uses' : List String}

theorem Ready.mono (h : D.Ready σ env mentions uses) (g : σ.Grows τ) :
    D.Ready τ env mentions uses :=
  ⟨h.toPlace.mono g, h.admits, fun n hn => (h.knows n hn).mono g⟩

theorem Ready.of_subset (h : D.Ready σ env mentions uses) (hm : ∀ m ∈ mentions', m ∈ mentions)
    (hu : ∀ n ∈ uses', n ∈ uses) : D.Ready σ env mentions' uses' :=
  ⟨h.toPlace, fun m hm' => h.admits m (hm m hm'), fun n hn => h.knows n (hu n hn)⟩

theorem ready_append :
    D.Ready σ env (mentions ++ mentions') (uses ++ uses') ↔
      D.Ready σ env mentions uses ∧ D.Ready σ env mentions' uses' := by
  constructor
  · intro h
    exact ⟨h.of_subset (fun _ => List.mem_append_left _) (fun _ => List.mem_append_left _),
      h.of_subset (fun _ => List.mem_append_right _) (fun _ => List.mem_append_right _)⟩
  · rintro ⟨h, h'⟩
    refine ⟨h.toPlace, fun m hm => ?_, fun n hn => ?_⟩
    · exact (List.mem_append.mp hm).elim (h.admits m) (h'.admits m)
    · exact (List.mem_append.mp hn).elim (h.knows n) (h'.knows n)

/-- Inside, where some names are bound in addition, a script is ready if it is outside under those
names. -/
theorem Ready.inside {env' : Env} (h : D.Ready σ env mentions uses) (bound : List String)
    (p : D.Place τ env') (hk : ∀ n, n ∈ bound ∨ D.Knows σ env n → D.Knows τ env' n)
    (hm : ∀ m ∈ mentions', m ∈ mentions)
    (hu : ∀ n ∈ uses', n ∉ bound → n ∈ uses) : D.Ready τ env' mentions' uses' := by
  refine ⟨p, fun m hm' => h.admits m (hm m hm'), fun n hn => hk n ?_⟩
  by_cases hb : n ∈ bound
  · exact .inl hb
  · exact .inr (h.knows n (hu n hn hb))

end

/-! ### Composition -/

section
variable {α β : Type} {s : Store}

theorem Holds.of_ok {m : Run α} {Q : α → Store → Prop} {a : α} {t : Store} (h : m s = .ok a t)
    (hv : m (D.seen s) = .ok a (D.seen t)) (g : D.Good t) (gr : Scopes.Grows s.scopes t.scopes)
    (q : Q a t) : D.Holds m s Q where
  seen := by rw [hv, h]; rfl
  ok b u e := by
    rw [h] at e
    cases e
    exact ⟨g, gr, q⟩
  fault f u e := by
    rw [h] at e
    cases e

theorem Holds.of_fault {m : Run α} {Q : α → Store → Prop} {f : Fault} {t : Store}
    (h : m s = .error (.fault f) t) (hv : m (D.seen s) = .error (.fault f) (D.seen t))
    (ha : D.allowed f) : D.Holds m s Q where
  seen := by rw [hv, h]; rfl
  ok b u e := by
    rw [h] at e
    cases e
  fault f u e := by
    rw [h] at e
    cases e
    exact ha

theorem Holds.imp {m : Run α} {P Q : α → Store → Prop} (h : D.Holds m s P)
    (hq : ∀ a t, D.Good t → Scopes.Grows s.scopes t.scopes → P a t → Q a t) : D.Holds m s Q where
  seen := h.seen
  ok a t e := by
    obtain ⟨g, gr, p⟩ := h.ok a t e
    exact ⟨g, gr, hq a t g gr p⟩
  fault := h.fault

theorem Holds.safe {m : Run α} {P : α → Store → Prop} (h : D.Holds m s P) : D.Safe m s :=
  h.imp fun _ _ _ _ _ => trivial

/-- **Runs in sequence.** -/
theorem Holds.bind {m : Run α} {f : α → Run β} {P : α → Store → Prop} {Q : β → Store → Prop}
    (hm : D.Holds m s P)
    (hf : ∀ a t, D.Good t → Scopes.Grows s.scopes t.scopes → P a t → D.Holds (f a) t Q) :
    D.Holds (m >>= f) s Q where
  seen := by
    rw [run_bind, run_bind, hm.seen]
    cases e : m s with
    | ok a t =>
        obtain ⟨g, gr, p⟩ := hm.ok a t e
        exact (hf a t g gr p).seen
    | error e t => rfl
  ok b u h := by
    obtain ⟨a, t, e, h⟩ := bind_eq_ok h
    obtain ⟨g, gr, p⟩ := hm.ok a t e
    obtain ⟨g', gr', q⟩ := (hf a t g gr p).ok b u h
    exact ⟨g', gr.trans gr', q⟩
  fault b u h := by
    rw [run_bind] at h
    cases e : m s with
    | ok a t =>
        obtain ⟨g, gr, p⟩ := hm.ok a t e
        rw [e] at h
        exact (hf a t g gr p).fault b u h
    | error e' t =>
        rw [e] at h
        cases h
        exact hm.fault b u e

theorem holds_pure (g : D.Good s) {Q : α → Store → Prop} {a : α} (q : Q a s) :
    D.Holds (pure a : Run α) s Q :=
  .of_ok rfl rfl g (.refl _) q

theorem safe_pure (g : D.Good s) (a : α) : D.Safe (pure a : Run α) s :=
  holds_pure g trivial

theorem holds_exhausted {Q : α → Store → Prop} :
    D.Holds (throw .exhausted : Run α) s Q where
  seen := rfl
  ok _ _ e := by cases e
  fault _ _ e := by cases e

theorem holds_fail {Q : α → Store → Prop} {f : Fault} (h : D.allowed f) :
    D.Holds (fail f : Run α) s Q :=
  .of_fault rfl rfl h

/-- A look at the store, if what is hidden does not decide what follows. -/
theorem Holds.reading {k : Store → Run β} {Q : β → Store → Prop} (h : D.Holds (k s) s Q)
    (hk : k (D.seen s) = k s) : D.Holds (get >>= k) s Q where
  seen := by
    rw [run_get_bind, run_get_bind, hk]
    exact h.seen
  ok := h.ok
  fault := h.fault

theorem Good.withHeap (g : D.Good s) {t : Store} (hs : t.scopes = s.scopes)
    (hf : t.functions = s.functions) : D.Good t := by
  refine ⟨by rw [hs]; exact g.inv, fun d env hm => ?_⟩
  rw [hs]
  rw [hf] at hm
  exact g.closures d env hm

theorem holds_onHeap {m : Run α} (hm : OnHeap m) (g : D.Good s) :
    D.Holds m s fun _ t => t.scopes = s.scopes where
  seen := by
    have h := hm.scopes s
    rw [seen, hm.blind]
    cases e : m s with
    | ok a t => rw [e] at h; simp only [mapStore, seen, ← h, storeOf]
    | error e' t => rw [e] at h; simp only [mapStore, seen, ← h, storeOf]
  ok a t e := by
    have hs := hm.scopes s
    have hf := hm.functions s
    rw [e] at hs hf
    exact ⟨g.withHeap hs hf, by rw [← show t.scopes = s.scopes from hs]; exact .refl _, hs⟩
  fault f t e := D.allowed_other (Fault.kind_ne_reference (hm.fault s f t e))

theorem safe_onHeap {m : Run α} (hm : OnHeap m) (g : D.Good s) : D.Safe m s :=
  (holds_onHeap hm g).safe

theorem safe_asCall {m : Run α} (h : D.Safe m { s with depth := s.depth + 1 }) :
    D.Safe (asCall m) s where
  seen := by
    have hv := h.seen
    simp only [asCall]
    rw [show { D.seen s with depth := (D.seen s).depth + 1 } =
      D.seen { s with depth := s.depth + 1 } from rfl, hv]
    cases m { s with depth := s.depth + 1 } <;> rfl
  ok a t e := by
    obtain ⟨u, hr, rfl⟩ := asCall_eq_ok e
    obtain ⟨g, gr, -⟩ := h.ok _ _ hr
    exact ⟨g.withHeap rfl rfl, gr, trivial⟩
  fault f t e := by
    obtain ⟨u, hr, -⟩ := asCall_eq_error e
    exact h.fault f u hr

end

/-! ### Names -/

section
variable {s : Store} {env : Env} {n : String}

theorem find?_view (g : D.Good s) (hw : D.Writable n) (env : Env) :
    (D.view s.scopes).find? n env = Scopes.find? s.scopes n env := by
  obtain ⟨m, ha, hm⟩ := hw
  exact Scopes.find?_congr (D.get?_view g.inv ha hm) env

theorem Good.withScopes (g : D.Good s) {σ : Scopes} (hi : D.inv σ)
    (gr : Scopes.Grows s.scopes σ) : D.Good (s.withScopes σ) :=
  ⟨hi, fun d env hm => (g.closures d env hm).mono gr⟩

theorem Good.put (g : D.Good s) (hw : D.Writable n) (r : Ref) (v : Variable) :
    D.Good (s.withScopes (Scopes.put s.scopes r n v)) := by
  obtain ⟨m, ha, hm⟩ := hw
  exact g.withScopes (D.inv_put g.inv ha hm r v) (Scopes.grows_put _ _ _ _)

theorem seen_put (g : D.Good s) (hw : D.Writable n) (r : Ref) (v : Variable) :
    D.seen (s.withScopes (Scopes.put s.scopes r n v)) =
      (D.seen s).withScopes (Scopes.put (D.seen s).scopes r n v) := by
  obtain ⟨m, ha, hm⟩ := hw
  simp only [seen, Store.scopes_withScopes, D.view_put g.inv ha hm, Store.withScopes_withScopes]

theorem safe_lookUp (g : D.Good s) (p : D.Place s.scopes env) (h : D.Knows s.scopes env n) :
    D.Safe (lookUp env n) s := by
  have hv := D.value_view g.inv p.rooted n
  rcases e : Scopes.find? s.scopes n env with _ | ⟨r, v⟩
  · rw [e] at hv
    have hv' : (D.view s.scopes).find? n env = none := by simpa using hv
    refine .of_fault (f := .notDefined n) (t := s) ?_ ?_ ?_
    · rw [lookUp_run, e]
    · rw [lookUp_run, seen, Store.scopes_withScopes, hv']
    · refine D.allowed_excused (h.resolve_right fun hf => ?_)
      rw [e] at hf
      cases hf
  · rw [e] at hv
    obtain ⟨⟨r', v'⟩, e', hval⟩ := Option.map_eq_some_iff.mp hv
    refine .of_ok (a := v.value) (t := s) ?_ ?_ g (.refl _) trivial
    · rw [lookUp_run, e]
    · rw [lookUp_run, seen, Store.scopes_withScopes, e']
      exact congrArg (EStateM.Result.ok · _) hval

theorem safe_typeOfName (g : D.Good s) (p : D.Place s.scopes env) :
    D.Safe (typeOfName env n) s := by
  have hv := D.value_view g.inv p.rooted n
  rcases e : Scopes.find? s.scopes n env with _ | ⟨r, v⟩
  · rw [e] at hv
    have hv' : (D.view s.scopes).find? n env = none := by simpa using hv
    refine .of_ok (a := .string "undefined") (t := s) ?_ ?_ g (.refl _) trivial
    · rw [typeOfName_run, e]
    · rw [typeOfName_run, seen, Store.scopes_withScopes, hv']
  · rw [e] at hv
    obtain ⟨⟨r', v'⟩, e', hval⟩ := Option.map_eq_some_iff.mp hv
    refine .of_ok (a := .string v.value.typeName) (t := s) ?_ ?_ g (.refl _) trivial
    · rw [typeOfName_run, e]
    · rw [typeOfName_run, seen, Store.scopes_withScopes, e']
      exact congrArg (EStateM.Result.ok · _) (congrArg (fun v => Value.string v.typeName) hval)

theorem safe_assignName (g : D.Good s) (h : D.Knows s.scopes env n) (hw : D.Writable n)
    (value : Value) : D.Safe (assignName env n value) s := by
  have hv := find?_view g hw env
  rcases e : Scopes.find? s.scopes n env with _ | ⟨r, v⟩
  · rw [e] at hv
    refine .of_fault (f := .notDefined n) (t := s) ?_ ?_ ?_
    · rw [assignName_run, e]
    · rw [assignName_run, seen, Store.scopes_withScopes, hv]
    · refine D.allowed_excused (h.resolve_right fun hf => ?_)
      rw [e] at hf
      cases hf
  · rw [e] at hv
    cases hm : v.mutable with
    | true =>
        refine .of_ok (a := ()) ?_ ?_ (g.put hw r ⟨value, true⟩) (Scopes.grows_put _ _ _ _) trivial
        · rw [assignName_run, e]
          simp [hm]
        · rw [assignName_run, seen_put g hw, seen, Store.scopes_withScopes, hv]
          simp [hm]
    | false =>
        refine .of_fault (f := .constantAssignment n) (t := s) ?_ ?_ (D.allowed_other nofun)
        · rw [assignName_run, e]
          simp [hm]
        · rw [assignName_run, seen, Store.scopes_withScopes, hv]
          simp [hm]

theorem holds_newScope (g : D.Good s) (ofFunction : Bool) (env : Env) :
    D.Holds (newScope ofFunction env) s fun inner t =>
      inner = ⟨s.scopes.size, ofFunction⟩ :: env ∧ t.scopes = Scopes.opened s.scopes := by
  refine .of_ok (newScope_run ofFunction env s) ?_
    (g.withScopes (D.inv_opened g.inv) (Scopes.grows_opened _)) (Scopes.grows_opened _) ⟨rfl, rfl⟩
  rw [newScope_run]
  simp only [seen, Store.scopes_withScopes, D.size_view g.inv, D.view_opened g.inv,
    Store.withScopes_withScopes]

/-- A scope that is opened is a place, and all that was known is known in it. -/
theorem Place.of_newScope {t : Store} {inner : Env} {ofFunction : Bool}
    (p : D.Place s.scopes env)
    (h : inner = ⟨s.scopes.size, ofFunction⟩ :: env ∧ t.scopes = Scopes.opened s.scopes) :
    D.Place t.scopes inner ∧ ∀ n, D.Knows s.scopes env n → D.Knows t.scopes inner n := by
  obtain ⟨rfl, ht⟩ := h
  rw [ht]
  exact ⟨p.opened ofFunction, fun n hn => (hn.mono (Scopes.grows_opened _)).inside _⟩

theorem holds_define (g : D.Good s) (p : D.Place s.scopes env) (hw : D.Writable n)
    (value : Value) (mutable : Bool) :
    D.Holds (define env n value mutable) s fun _ t => D.Knows t.scopes env n := by
  refine .of_ok (define_run env n value mutable s) ?_ (g.put hw _ _) (Scopes.grows_put _ _ _ _)
    (.inr (p.supports.find?_put (.own env) n _))
  rw [define_run, seen_put g hw]

theorem safe_declare (g : D.Good s) (hw : D.Writable n) (value : Value) (mutable : Bool) :
    D.Safe (declare env n value mutable) s := by
  have hv : ((D.view s.scopes).scope (ownScope env)).get? n =
      (Scopes.scope s.scopes (ownScope env)).get? n := by
    obtain ⟨m, ha, hm⟩ := hw
    exact D.get?_view g.inv ha hm _
  cases e : (Scopes.scope s.scopes (ownScope env)).get? n with
  | some v =>
      rw [e] at hv
      refine .of_fault (f := .alreadyDeclared n) (t := s) ?_ ?_ (D.allowed_other nofun)
      · rw [declare_run, e]
      · rw [declare_run, seen, Store.scopes_withScopes, hv]
  | none =>
      rw [e] at hv
      refine .of_ok (a := ()) ?_ ?_ (g.put hw (ownScope env) ⟨value, mutable⟩)
        (Scopes.grows_put _ _ _ _) trivial
      · rw [declare_run, e]
      · rw [declare_run, seen_put g hw, seen, Store.scopes_withScopes, hv]

theorem holds_declareVar (g : D.Good s) (p : D.Place s.scopes env) (hw : D.Writable n) :
    D.Holds (declareVar env n) s fun _ t => D.Knows t.scopes env n := by
  have hv : ((D.view s.scopes).scope (varScope env)).get? n =
      (Scopes.scope s.scopes (varScope env)).get? n := by
    obtain ⟨m, ha, hm⟩ := hw
    exact D.get?_view g.inv ha hm _
  cases e : (Scopes.scope s.scopes (varScope env)).get? n with
  | some v =>
      rw [e] at hv
      refine .of_ok (a := ()) (t := s) ?_ ?_ g (.refl _) (.of_bound p (.var env) (by simp [e]))
      · rw [declareVar_run, e]
      · rw [declareVar_run, seen, Store.scopes_withScopes, hv]
  | none =>
      rw [e] at hv
      refine .of_ok (a := ()) ?_ ?_ (g.put hw (varScope env) ⟨.undefined, true⟩)
        (Scopes.grows_put _ _ _ _) (.inr (p.supports.find?_put (.var env) n _))
      · rw [declareVar_run, e]
      · rw [declareVar_run, seen_put g hw, seen, Store.scopes_withScopes, hv]

end

end Discipline

end Stencil.Script
