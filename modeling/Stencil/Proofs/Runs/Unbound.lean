import Stencil.Proofs.Names.Clashes
import Stencil.Proofs.Runs.Bindings

/-!
# Runs — what stays unbound

`let` and `const` fail where their name is bound already, so what a run leaves unbound matters.  A
statement binds a name in the scope it stands in, or in that of its function, and only if the tree
says so: `BindsIn`.  `Spares name may m s Q` says that from `s` the run `m` binds `name` in no scope
that was there before but those of `may`, and that it does not fail because `name` is declared
already; if it has a result, then also `Q`.

* `Fits`: what a statement needs of the scopes around it; `Fits.rest` carries it past a part of the
  statement.
* `Spares.bind`, `Spares.bind_inside`: how runs compose, in the same scopes and in a new one.
* `spares_enter`: a call binds nothing outside, and inside only its parameters and hoisted names.
-/

namespace Stencil.Script
open Discipline

/-! ### Places -/

/-- A place at which names can be bound. -/
structure Stands (σ : Scopes) (env : Env) : Prop where
  nonempty : env ≠ []
  own : ownScope env < σ.size
  var : varScope env < σ.size

theorem varScope_block {env : Env} (h : env ≠ []) (r : Ref) :
    varScope (⟨r, false⟩ :: env) = varScope env := by
  cases env with
  | nil => exact absurd rfl h
  | cons frame outer => simp [varScope]

theorem varScope_call (env : Env) (r : Ref) : varScope (⟨r, true⟩ :: env) = r := by
  cases env <;> simp [varScope]

theorem Stands.mono {σ τ : Scopes} {env : Env} (h : Stands σ env) (g : σ.size ≤ τ.size) :
    Stands τ env :=
  ⟨h.nonempty, Nat.lt_of_lt_of_le h.own g, Nat.lt_of_lt_of_le h.var g⟩

theorem Stands.block {σ : Scopes} {env : Env} (h : Stands σ env) :
    Stands σ.opened (⟨σ.size, false⟩ :: env) where
  nonempty := List.cons_ne_nil _ _
  own := by simp [ownScope]
  var := by
    rw [varScope_block h.nonempty, Scopes.size_opened]
    exact Nat.lt_succ_of_lt h.var

theorem stands_call (σ : Scopes) (env : Env) : Stands σ.opened (⟨σ.size, true⟩ :: env) where
  nonempty := List.cons_ne_nil _ _
  own := by simp [ownScope]
  var := by simp [varScope_call]

theorem hoisted_declare (kind : DeclKind) (first : String × Option Expr)
    (rest : List (String × Option Expr)) : (Stmt.declare kind (first :: rest)).hoisted =
      (Stmt.declare kind [first]).hoisted ++ (Stmt.declare kind rest).hoisted := by
  cases kind <;> simp [Stmt.hoisted]

/-- Whether a name is not bound in a scope. -/
def Scopes.Unbound (σ : Scopes) (name : String) (r : Ref) : Prop :=
  (σ.scope r).get? name = none

theorem Scopes.unbound_fresh (σ : Scopes) (name : String) : σ.opened.Unbound name σ.size := by
  rw [Scopes.Unbound, Scopes.scope_opened, Scopes.scope_of_le (Nat.le_refl _)]
  rfl

/-- The scopes in which a part of a script may bind a name. -/
def BindsIn (name : String) (env : Env) (lexical hoisted : List String) (r : Ref) : Prop :=
  (r = ownScope env ∧ name ∈ lexical) ∨ (r = varScope env ∧ name ∈ hoisted)

/-- Scopes after a run that binds a name in none but some of those before. -/
structure Scopes.Spared (name : String) (may : Ref → Prop) (σ τ : Scopes) : Prop where
  size : σ.size ≤ τ.size
  unbound : ∀ r < σ.size, ¬ may r → σ.Unbound name r → τ.Unbound name r

/-- **Whether a part of a script fits in its place**: what it declares with `let` and `const` is not
bound there, and not bound there by the part in another way. -/
structure Fits (name : String) (σ : Scopes) (env : Env) (lexical hoisted : List String) : Prop
    extends Stands σ env where
  once : lexical.count name ≤ 1
  unbound : name ∈ lexical → σ.Unbound name (ownScope env)
  apart : name ∈ lexical → ownScope env = varScope env → name ∉ hoisted

section
variable {name : String} {σ τ : Scopes} {env : Env} {l l' h h' : List String}

theorem Stands.fits (p : Stands σ env) (hl : name ∉ l) : Fits name σ env l h :=
  ⟨p, by rw [List.count_eq_zero_of_not_mem hl]; exact Nat.zero_le _, fun hm => absurd hm hl,
    fun hm => absurd hm hl⟩

/-- In a scope that is opened for a block there is room for all that the block binds. -/
theorem Fits.opened (f : Fits name σ env l h) (ht : τ = σ.opened) (hl : l'.count name ≤ 1) :
    Fits name τ (⟨σ.size, false⟩ :: env) l' h' := by
  subst ht
  refine ⟨f.toStands.block, hl, fun _ => Scopes.unbound_fresh σ name, fun _ he => ?_⟩
  rw [varScope_block f.nonempty] at he
  exact absurd he (Nat.ne_of_gt f.var)

theorem Fits.first (f : Fits name σ env (l ++ l') (h ++ h')) : Fits name σ env l h := by
  have hc := f.once
  rw [List.count_append] at hc
  exact ⟨f.toStands, by omega, fun hm => f.unbound (List.mem_append_left _ hm),
    fun hm he hh => f.apart (List.mem_append_left _ hm) he (List.mem_append_left _ hh)⟩

/-- What follows a part still fits after it. -/
theorem Fits.rest (f : Fits name σ env (l ++ l') (h ++ h'))
    (g : σ.Spared name (BindsIn name env l h) τ) : Fits name τ env l' h' := by
  have hc := f.once
  rw [List.count_append] at hc
  refine ⟨f.toStands.mono g.size, by omega, fun hm => ?_, fun hm he hh =>
    f.apart (List.mem_append_right _ hm) he (List.mem_append_right _ hh)⟩
  have hl : name ∉ l := fun hl => by
    have h₁ := List.count_pos_iff.mpr hl
    have h₂ := List.count_pos_iff.mpr hm
    omega
  refine g.unbound _ f.own ?_ (f.unbound (List.mem_append_right _ hm))
  rintro (⟨-, hin⟩ | ⟨he, hin⟩)
  · exact hl hin
  · exact f.apart (List.mem_append_right _ hm) he (List.mem_append_left _ hin)

/-- A part still fits after a run that binds the name in no scope that was there before. -/
theorem Fits.after (f : Fits name σ env l h) (g : σ.Spared name (fun _ => False) τ) :
    Fits name τ env l h :=
  ⟨f.toStands.mono g.size, f.once, fun hm => g.unbound _ f.own id (f.unbound hm), f.apart⟩

theorem BindsIn.imp {r : Ref} (b : BindsIn name env l h r) (hl : name ∈ l → name ∈ l')
    (hh : name ∈ h → name ∈ h') : BindsIn name env l' h' r :=
  Or.imp (And.imp_right hl) (And.imp_right hh) b

theorem BindsIn.append_left {r : Ref} (b : BindsIn name env l h r) :
    BindsIn name env (l ++ l') (h ++ h') r :=
  b.imp (List.mem_append_left _) (List.mem_append_left _)

theorem BindsIn.append_right {r : Ref} (b : BindsIn name env l' h' r) :
    BindsIn name env (l ++ l') (h ++ h') r :=
  b.imp (List.mem_append_right _) (List.mem_append_right _)

/-- A branch declares nothing of the name with `let` or `const`. -/
theorem BindsIn.of_branch {r : Ref} (hl : name ∉ l) (b : BindsIn name env l h r) :
    BindsIn name env [] h r :=
  .inr (b.resolve_left fun hb => hl hb.2)

/-- What is bound from a block is bound in the scope of the function, or in a new one. -/
theorem BindsIn.of_block {r : Ref} (hne : env ≠ [])
    (b : BindsIn name (⟨σ.size, false⟩ :: env) l h r) :
    σ.size ≤ r ∨ BindsIn name env [] h r := by
  rcases b with ⟨rfl, -⟩ | ⟨hr, hm⟩
  · exact .inl (Nat.le_refl _)
  · rw [varScope_block hne] at hr
    exact .inr (.inr ⟨hr, hm⟩)

namespace Scopes.Spared
variable {may may' : Ref → Prop} {υ : Scopes}

theorem refl (σ : Scopes) : σ.Spared name may σ :=
  ⟨Nat.le_refl _, fun _ _ _ h => h⟩

theorem imp (g : σ.Spared name may τ) (hm : ∀ r < σ.size, may r → may' r) :
    σ.Spared name may' τ :=
  ⟨g.size, fun r hr hn hu => g.unbound r hr (fun h => hn (hm r hr h)) hu⟩

theorem trans (g : σ.Spared name may τ)
    (g' : τ.Spared name (fun r => σ.size ≤ r ∨ may r) υ) : σ.Spared name may υ where
  size := Nat.le_trans g.size g'.size
  unbound r hr hn hu :=
    g'.unbound r (Nat.lt_of_lt_of_le hr g.size) (fun h => h.elim (Nat.not_le_of_lt hr) hn)
      (g.unbound r hr hn hu)

theorem put (σ : Scopes) {r : Ref} {n : String} (v : Variable)
    (hm : n = name → σ.Unbound name r → may r) : σ.Spared name may (σ.put r n v) where
  size := by simp
  unbound q _ hq hu := by
    rw [Unbound, scope_put]
    split
    · rename_i hr
      obtain ⟨rfl, -⟩ := hr
      rw [Scope.get?_put_of_ne fun he => hq (hm he.symm hu)]
      exact hu
    · exact hu

theorem opened (σ : Scopes) : σ.Spared name may σ.opened where
  size := by simp
  unbound r _ _ hu := by rwa [Unbound, scope_opened]

end Scopes.Spared

end

/-! ### Runs -/

/-- What holds of stores all along: no function has a clash over the name. -/
def Tame (name : String) (s : Store) : Prop :=
  ∀ d env, .closure d env ∈ s.functions → Clear name d.clashes

/-- **Runs that spare a name.** -/
structure Spares (name : String) (may : Ref → Prop) {α : Type} (m : Run α) (s : Store)
    (Q : α → Store → Prop) : Prop where
  ok : ∀ a t, m s = .ok a t → Tame name t ∧ Scopes.Spared name may s.scopes t.scopes ∧ Q a t
  fault : ∀ t, m s ≠ .error (.fault (.alreadyDeclared name)) t

/-- Runs that bind a name in no scope that was there before. -/
abbrev Silent (name : String) {α : Type} (m : Run α) (s : Store) : Prop :=
  Spares name (fun _ => False) m s fun _ _ => True

section
variable {name : String} {may may' : Ref → Prop} {α β : Type} {s : Store}

theorem Spares.of_ok {m : Run α} {Q : α → Store → Prop} {a : α} {t : Store} (h : m s = .ok a t)
    (g : Tame name t) (sp : Scopes.Spared name may s.scopes t.scopes) (q : Q a t) :
    Spares name may m s Q where
  ok b u e := by
    rw [h] at e
    cases e
    exact ⟨g, sp, q⟩
  fault u e := by
    rw [h] at e
    cases e

theorem Spares.of_fault {m : Run α} {Q : α → Store → Prop} {f : Fault} {t : Store}
    (h : m s = .error (.fault f) t) (hf : f ≠ .alreadyDeclared name) : Spares name may m s Q where
  ok b u e := by
    rw [h] at e
    cases e
  fault u e := by
    rw [h] at e
    cases e
    exact hf rfl

theorem Spares.imp {m : Run α} {P Q : α → Store → Prop} (h : Spares name may m s P)
    (hm : ∀ r < s.scopes.size, may r → may' r)
    (hq : ∀ a t, Scopes.Spared name may s.scopes t.scopes → P a t → Q a t) :
    Spares name may' m s Q where
  ok a t e := by
    obtain ⟨g, sp, p⟩ := h.ok a t e
    exact ⟨g, sp.imp hm, hq a t sp p⟩
  fault := h.fault

theorem Spares.mono {m : Run α} {Q : α → Store → Prop} (h : Spares name may m s Q)
    (hm : ∀ r, may r → may' r) : Spares name may' m s Q :=
  h.imp (fun r _ => hm r) fun _ _ _ q => q

theorem Silent.spares {m : Run α} (h : Silent name m s) :
    Spares name may m s fun _ _ => True :=
  h.mono fun _ => False.elim

/-- **Runs in sequence**, the second of which may also bind in scopes that the first has opened. -/
theorem Spares.bind_inside {m : Run α} {f : α → Run β} {P : α → Store → Prop}
    {Q : β → Store → Prop} (hm : Spares name may m s P)
    (hf : ∀ a t, Tame name t → Scopes.Spared name may s.scopes t.scopes → P a t →
      Spares name (fun r => s.scopes.size ≤ r ∨ may r) (f a) t Q) :
    Spares name may (m >>= f) s Q where
  ok b u e := by
    obtain ⟨a, t, h, e⟩ := bind_eq_ok e
    obtain ⟨g, sp, p⟩ := hm.ok a t h
    obtain ⟨g', sp', q⟩ := (hf a t g sp p).ok b u e
    exact ⟨g', sp.trans sp', q⟩
  fault u e := by
    rw [run_bind] at e
    cases h : m s with
    | ok a t =>
        rw [h] at e
        obtain ⟨g, sp, p⟩ := hm.ok a t h
        exact (hf a t g sp p).fault u e
    | error e' t =>
        rw [h] at e
        cases e
        exact hm.fault u h

/-- **Runs in sequence.** -/
theorem Spares.bind {m : Run α} {f : α → Run β} {P : α → Store → Prop} {Q : β → Store → Prop}
    (hm : Spares name may m s P)
    (hf : ∀ a t, Tame name t → Scopes.Spared name may s.scopes t.scopes → P a t →
      Spares name may (f a) t Q) : Spares name may (m >>= f) s Q :=
  hm.bind_inside fun a t g sp p => (hf a t g sp p).mono fun _ => .inr

/-- **Parts in sequence**, the second of which fits after the first. -/
theorem Spares.bind_rest {env : Env} {l l' h h' : List String} {m : Run α} {f : α → Run β}
    {P : α → Store → Prop} {Q : β → Store → Prop}
    (hm : Spares name (BindsIn name env l h) m s P)
    (fits : Fits name s.scopes env (l ++ l') (h ++ h'))
    (hf : ∀ a t, Tame name t → Fits name t.scopes env l' h' →
      Spares name (BindsIn name env (l ++ l') (h ++ h')) (f a) t Q) :
    Spares name (BindsIn name env (l ++ l') (h ++ h')) (m >>= f) s Q :=
  (hm.imp (fun _ _ => .append_left) fun _ _ sp _ => fits.rest sp).bind
    fun a t g _ f' => hf a t g f'

theorem spares_pure (g : Tame name s) {Q : α → Store → Prop} {a : α} (q : Q a s) :
    Spares name may (pure a : Run α) s Q :=
  .of_ok rfl g (.refl _) q

theorem silent_pure (g : Tame name s) (a : α) :
    Spares name may (pure a : Run α) s fun _ _ => True :=
  spares_pure g trivial

theorem spares_exhausted {Q : α → Store → Prop} :
    Spares name may (throw .exhausted : Run α) s Q where
  ok _ _ e := by cases e
  fault _ e := by cases e

theorem spares_fail {Q : α → Store → Prop} {f : Fault} (h : f ≠ .alreadyDeclared name) :
    Spares name may (fail f : Run α) s Q :=
  .of_fault rfl h

theorem Spares.reading {k : Store → Run β} {Q : β → Store → Prop}
    (h : Spares name may (k s) s Q) : Spares name may (get >>= k) s Q :=
  ⟨h.ok, h.fault⟩

theorem spares_onHeap {m : Run α} (hm : OnHeap m) (g : Tame name s) :
    Spares name may m s fun _ t => t.scopes = s.scopes where
  ok a t e := by
    have hs := hm.scopes s
    have hf := hm.functions s
    rw [e] at hs hf
    refine ⟨fun d env hd => g d env ?_, ?_, hs⟩
    · rwa [← show t.functions = s.functions from hf]
    · rw [show t.scopes = s.scopes from hs]
      exact .refl _
  fault t e := by cases hm.fault s _ t e

theorem silent_onHeap {m : Run α} (hm : OnHeap m) (g : Tame name s) :
    Spares name may m s fun _ _ => True :=
  (spares_onHeap hm g).imp (fun _ _ => id) fun _ _ _ _ => trivial

theorem spares_asCall {m : Run α} (h : Spares name may m { s with depth := s.depth + 1 }
    fun _ _ => True) : Spares name may (asCall m) s fun _ _ => True where
  ok a t e := by
    obtain ⟨u, hr, rfl⟩ := asCall_eq_ok e
    obtain ⟨g, sp, -⟩ := h.ok _ _ hr
    exact ⟨g, sp, trivial⟩
  fault t e := by
    obtain ⟨u, hr, -⟩ := asCall_eq_error e
    exact h.fault u hr

end

/-! ### Names -/

section
variable {name n : String} {may : Ref → Prop} {s : Store} {env : Env}

theorem Tame.pushFunction (g : Tame name s) {d : Definition} (h : Clear name d.clashes) :
    Tame name { s with functions := s.functions.push (.closure d env) } := by
  intro d' env' hm
  rcases Array.mem_push.mp hm with hm | hm
  · exact g d' env' hm
  · cases hm
    exact h

theorem silent_lookUp (g : Tame name s) :
    Spares name may (lookUp env n) s fun _ _ => True := by
  rcases e : Scopes.find? s.scopes n env with _ | ⟨r, v⟩
  · exact .of_fault (f := .notDefined n) (t := s) (by rw [lookUp_run, e]) nofun
  · exact .of_ok (a := v.value) (t := s) (by rw [lookUp_run, e]) g (.refl _) trivial

theorem silent_typeOfName (g : Tame name s) :
    Spares name may (typeOfName env n) s fun _ _ => True := by
  rcases e : Scopes.find? s.scopes n env with _ | ⟨r, v⟩
  · exact .of_ok (a := .string "undefined") (t := s) (by rw [typeOfName_run, e]) g (.refl _) trivial
  · exact .of_ok (a := .string v.value.typeName) (t := s) (by rw [typeOfName_run, e]) g (.refl _)
      trivial

/-- The scope in which a name is found binds it. -/
theorem Scopes.not_unbound_of_find? {σ : Scopes} {r : Ref} {v : Variable} :
    ∀ {env : Env}, σ.find? n env = some (r, v) → ¬ σ.Unbound n r
  | frame :: outer, h => by
      rw [find?_cons] at h
      split at h
      · rename_i w hw
        cases h
        intro hu
        rw [Unbound, hw] at hu
        cases hu
      · exact not_unbound_of_find? h

theorem silent_assignName (g : Tame name s) (value : Value) :
    Spares name may (assignName env n value) s fun _ _ => True := by
  rcases e : Scopes.find? s.scopes n env with _ | ⟨r, v⟩
  · exact .of_fault (f := .notDefined n) (t := s) (by rw [assignName_run, e]) nofun
  · cases hm : v.mutable with
    | true =>
        refine .of_ok (a := ()) (t := s.withScopes (Scopes.put s.scopes r n ⟨value, true⟩)) ?_ g
          (.put s.scopes _ ?_) trivial
        · rw [assignName_run, e]
          simp [hm]
        · rintro rfl hu
          exact absurd hu (Scopes.not_unbound_of_find? e)
    | false =>
        refine .of_fault (f := .constantAssignment n) (t := s) ?_ nofun
        rw [assignName_run, e]
        simp [hm]

theorem spares_newScope (g : Tame name s) (ofFunction : Bool) (env : Env) :
    Spares name may (newScope ofFunction env) s fun inner t =>
      inner = ⟨s.scopes.size, ofFunction⟩ :: env ∧ t.scopes = Scopes.opened s.scopes :=
  .of_ok (newScope_run ofFunction env s) g (.opened _) ⟨rfl, rfl⟩

theorem spares_define (g : Tame name s) (hm : n = name → may (ownScope env)) (value : Value)
    (mutable : Bool) : Spares name may (define env n value mutable) s fun _ _ => True :=
  .of_ok (define_run env n value mutable s) g (.put s.scopes _ fun he _ => hm he) trivial

theorem spares_declare (g : Tame name s)
    (hu : n = name → Scopes.Unbound s.scopes name (ownScope env) ∧ may (ownScope env))
    (value : Value) (mutable : Bool) :
    Spares name may (declare env n value mutable) s fun _ _ => True := by
  cases e : (Scopes.scope s.scopes (ownScope env)).get? n with
  | some v =>
      refine .of_fault (f := .alreadyDeclared n) (t := s) (by rw [declare_run, e]) ?_
      rintro ⟨⟩
      have h := (hu rfl).1
      rw [Scopes.Unbound, e] at h
      cases h
  | none =>
      refine .of_ok (a := ()) (t := s.withScopes (Scopes.put s.scopes (ownScope env) n
        ⟨value, mutable⟩)) (by rw [declare_run, e]) g (.put s.scopes _ fun he _ => (hu he).2) trivial

theorem spares_declareVar (g : Tame name s) (hm : n = name → may (varScope env)) :
    Spares name may (declareVar env n) s fun _ _ => True := by
  cases e : (Scopes.scope s.scopes (varScope env)).get? n with
  | some v => exact .of_ok (a := ()) (t := s) (by rw [declareVar_run, e]) g (.refl _) trivial
  | none =>
      exact .of_ok (a := ()) (t := s.withScopes (Scopes.put s.scopes (varScope env) n
        ⟨.undefined, true⟩)) (by rw [declareVar_run, e]) g (.put s.scopes _ fun he _ => hm he) trivial

/-! ### Functions -/

theorem spares_newFunction (g : Tame name s) {d : Definition} (h : Clear name d.clashes) :
    Spares name may (newFunction (.closure d env)) s fun _ _ => True :=
  .of_ok rfl (g.pushFunction h) (.refl _) trivial

theorem silent_functionValue (g : Tame name s) {d : Definition} (h : Clear name d.clashes) :
    Silent name (functionValue d env) s := by
  cases e : d.name with
  | none =>
      rw [functionValue_of_unnamed e]
      exact spares_newFunction g h
  | some own =>
      rw [functionValue_of_named e]
      refine (spares_newScope g false env).bind_inside fun inner t g₁ _ hi => ?_
      refine (spares_newFunction g₁ h).bind fun f u g₂ _ _ => ?_
      refine (spares_define g₂ (fun _ => ?_) f false).bind fun _ v g₃ _ _ => silent_pure g₃ f
      rw [hi.1]
      exact .inl (Nat.le_refl _)

theorem spares_declareFunction (hname : name ≠ "") (g : Tame name s) {d : Definition}
    (h : Clear name d.clashes) :
    Spares name (BindsIn name env [] d.name.toList) (declareFunction d env) s fun _ _ => True := by
  refine (spares_newFunction g h).bind fun f t g₁ _ _ => ?_
  refine (spares_declareVar g₁ fun he => .inr ⟨rfl, ?_⟩).bind fun _ u g₂ _ _ => silent_assignName g₂ f
  cases hd : d.name with
  | none => rw [hd] at he; exact absurd he.symm hname
  | some own => rw [hd] at he; exact List.mem_singleton.mpr he.symm

theorem spares_declareFunctions (hname : name ≠ "") :
    ∀ {body : List Stmt} {s : Store}, Tame name s → Clear name (clashesBody body) →
      Spares name (BindsIn name env [] (hoistedNames body)) (declareFunctions env body) s
        fun _ _ => True
  | [], s, g, _ => silent_pure g ()
  | first :: rest, s, g, h => by
      rw [clashesBody, clear_append] at h
      have others : ∀ {t : Store}, Tame name t →
          Spares name (BindsIn name env [] (hoistedNames (first :: rest)))
            (declareFunctions env rest) t fun _ _ => True :=
        fun g' => (spares_declareFunctions hname g' h.2).mono fun _ b =>
          b.imp id (List.mem_append_right _)
      cases first with
      | function d =>
          exact ((spares_declareFunction hname g h.1).mono fun _ b =>
            b.imp id (List.mem_append_left _)).bind fun _ _ g' _ _ => others g'
      | _ => exact others g

/-! ### Calls -/

theorem spares_bindParameters :
    ∀ {names : List String} {s : Store} (arguments : List Value), Tame name s →
      Spares name (BindsIn name env names []) (bindParameters env names arguments) s fun _ _ => True
  | [], _, arguments, g => silent_pure g arguments
  | _ :: _, _, arguments, g =>
      (spares_define g (fun he => .inl ⟨rfl, he ▸ List.mem_cons_self⟩) _ true).bind
        fun _ _ g' _ _ => (spares_bindParameters arguments.tail g').mono fun _ b =>
          b.imp (List.mem_cons_of_mem _) id

theorem spares_bindRest (g : Tame name s) (rest : Option String) (left : List Value) :
    Spares name (BindsIn name env rest.toList []) (bindRest env rest left) s fun _ _ => True := by
  cases rest with
  | none => exact silent_pure g ()
  | some own =>
      refine (silent_onHeap (onHeap_newArray left.toArray) g).bind fun v t g' _ _ => ?_
      exact spares_define g' (fun he => .inl ⟨rfl, List.mem_singleton.mpr he.symm⟩) v true

theorem spares_declareVars :
    ∀ {names : List String} {s : Store}, Tame name s →
      Spares name (BindsIn name env [] names) (declareVars env names) s fun _ _ => True
  | [], _, g => silent_pure g ()
  | _ :: _, _, g =>
      (spares_declareVar g fun he => .inr ⟨rfl, he ▸ List.mem_cons_self⟩).bind
        fun _ _ g' _ _ => (spares_declareVars g').mono fun _ b =>
          b.imp id (List.mem_cons_of_mem _)

theorem spares_hoist (hname : name ≠ "") {body : List Stmt} (g : Tame name s)
    (h : Clear name (clashesBody body)) :
    Spares name (BindsIn name env [] (hoistedNames body)) (hoist env body) s fun _ _ => True :=
  (spares_declareVars g).bind fun _ _ g' _ _ => spares_declareFunctions hname g' h

/-- **Calls.**  After a call has bound what it binds, its body fits in the new scope. -/
theorem spares_enter (hname : name ≠ "") (g : Tame name s) {d : Definition}
    (h : Clear name d.clashes) (arguments : List Value) :
    Spares name (fun _ => False) (enter d env arguments) s fun inner t =>
      Fits name t.scopes inner (lexicalNames d.body) (hoistedNames d.body) ∧
        ownScope inner = s.scopes.size ∧ varScope inner = s.scopes.size := by
  obtain ⟨honce, hapart⟩ := h.binds
  have hbody : Clear name (clashesBody d.body) := by
    rw [d.clashes_eq, clear_append] at h
    exact h.2
  rw [enter_eq]
  refine (spares_newScope g true env).bind_inside fun inner t g₁ _ hi => ?_
  obtain ⟨rfl, ht⟩ := hi
  have bound : Spares name (BindsIn name (⟨s.scopes.size, true⟩ :: env)
      (d.parameters ++ d.rest.toList) (hoistedNames d.body))
      (bindParameters (⟨s.scopes.size, true⟩ :: env) d.parameters arguments >>= fun left =>
        bindRest (⟨s.scopes.size, true⟩ :: env) d.rest left >>= fun _ =>
          hoist (⟨s.scopes.size, true⟩ :: env) d.body >>= fun _ =>
            pure (⟨s.scopes.size, true⟩ :: env)) t fun inner _ =>
        inner = ⟨s.scopes.size, true⟩ :: env := by
    refine ((spares_bindParameters arguments g₁).mono fun _ b =>
      b.imp (List.mem_append_left _) nofun).bind fun left u g₂ _ _ => ?_
    refine ((spares_bindRest g₂ d.rest left).mono fun _ b =>
      b.imp (List.mem_append_right _) nofun).bind fun _ v g₃ _ _ => ?_
    refine ((spares_hoist hname g₃ hbody).mono fun _ b => b.imp nofun id).bind
      fun _ w g₄ _ _ => ?_
    exact spares_pure g₄ rfl
  -- all that is bound is bound in the scope of the call, where `name` is not declared yet
  have hvar := varScope_call env s.scopes.size
  refine bound.imp (fun r _ b => .inl ?_) fun inner u sp hinner => ?_
  · rcases b with ⟨hr, -⟩ | ⟨hr, -⟩
    · exact hr ▸ Nat.le_refl _
    · exact (hr.trans hvar) ▸ Nat.le_refl _
  · subst hinner
    rw [ht] at sp
    refine ⟨⟨(stands_call _ env).mono sp.size, honce, fun hm => ?_, fun hm _ => (hapart hm).2⟩,
      rfl, hvar⟩
    refine sp.unbound _ (by simp [ownScope]) ?_ (Scopes.unbound_fresh _ name)
    rintro (⟨-, hp⟩ | ⟨-, hh⟩)
    · exact (hapart hm).1 hp
    · exact (hapart hm).2 hh

end

end Stencil.Script
