import Stencil.Proofs.Runs.Trace
import Stencil.Proofs.Runs.Unbound

/-!
# Runs — a variable that is only added to

A `Sink` is a variable that output gathers in: its name, and the only scope that binds it.  Where a
script does not rewrite the name, the sink holds after a run what it held before, and then what the
additions of the run have written.  `K.Yields m s l Q` says this of the run `m` from `s` with the
additions `l`; if there is a result, then also `Q`.

* `Yields.bind`, `Yields.first`, `Yields.last`, `Yields.reading`: how runs compose.
* `adds_append`: an addition to the sink takes the place of those that it encloses.
* `yields_enter`, `yields_bindRound`: what calls and rounds of loops bind.
-/

namespace Stencil.Script
open Discipline

/-- A variable that output gathers in. -/
structure Sink where
  name : String
  scope : Ref

namespace Sink

/-- Places from which the sink can be seen. -/
def Inside (K : Sink) (env : Env) : Prop :=
  ∃ frame ∈ env, frame.scope = K.scope

/-- What holds of stores all along: the sink's name is bound in no scope but its own, and functions
do not rewrite it. -/
structure Fair (K : Sink) (s : Store) : Prop where
  size : K.scope < s.scopes.size
  alone : ∀ r, r ≠ K.scope → Scopes.Unbound s.scopes K.name r
  closures : ∀ d env, .closure d env ∈ s.functions → K.name ∉ d.rewrites ∧ K.Inside env

/-- What the sink holds. -/
def Shows (K : Sink) (s : Store) (out : String) : Prop :=
  (Scopes.scope s.scopes K.scope).get? K.name = some ⟨.string out, true⟩

/-- **Runs that add to the sink**, and do nothing else to it. -/
def Yields (K : Sink) {α : Type} (m : Run α) (s : Store) (l : List Append)
    (Q : α → Store → Prop) : Prop :=
  ∀ a t, m s = .ok a t →
    K.Fair t ∧ (∀ out, K.Shows s out → K.Shows t (out ++ written l)) ∧ Q a t

/-- Runs that add to the sink, whatever their result. -/
abbrev Adds (K : Sink) {α : Type} (m : Run α) (s : Store) (l : List Append) : Prop :=
  K.Yields m s l fun _ _ => True

variable {K : Sink} {α β : Type} {s : Store} {env : Env} {n : String}

theorem Inside.cons (i : K.Inside env) (frame : Frame) : K.Inside (frame :: env) := by
  obtain ⟨f, hf, he⟩ := i
  exact ⟨f, List.mem_cons_of_mem _ hf, he⟩

/-- From inside, the sink's name is found in the sink's scope or not at all. -/
theorem Fair.find? (g : K.Fair s) : ∀ {env : Env}, K.Inside env →
    Scopes.find? s.scopes K.name env =
      ((Scopes.scope s.scopes K.scope).get? K.name).map (K.scope, ·)
  | [], i => by
      obtain ⟨_, hm, -⟩ := i
      cases hm
  | frame :: outer, i => by
      rw [Scopes.find?_cons]
      by_cases hf : frame.scope = K.scope
      · rw [hf]
        cases e : (Scopes.scope s.scopes K.scope).get? K.name with
        | some v => rfl
        | none =>
            -- the scopes further out do not bind the name either
            have unbound : ∀ r, Scopes.Unbound s.scopes K.name r := fun r => by
              by_cases hr : r = K.scope
              · rw [Scopes.Unbound, hr, e]
              · exact g.alone r hr
            cases hfound : Scopes.find? s.scopes K.name outer with
            | none => rfl
            | some found => exact absurd (unbound found.1) (Scopes.not_unbound_of_find? hfound)
      · have hu : (Scopes.scope s.scopes frame.scope).get? K.name = none := g.alone _ hf
        obtain ⟨f, hm, he⟩ := i
        rw [hu]
        rcases List.mem_cons.mp hm with rfl | hm
        · exact absurd he hf
        · exact g.find? ⟨f, hm, he⟩

/-! ### Composition -/

theorem Yields.imp {m : Run α} {l : List Append} {P Q : α → Store → Prop} (h : K.Yields m s l P)
    (hq : ∀ a t, P a t → Q a t) : K.Yields m s l Q := by
  intro a t e
  obtain ⟨g, sh, p⟩ := h a t e
  exact ⟨g, sh, hq a t p⟩

theorem Yields.adds {m : Run α} {l : List Append} {P : α → Store → Prop} (h : K.Yields m s l P) :
    K.Adds m s l :=
  h.imp fun _ _ _ => trivial

/-- **Runs in sequence.** -/
theorem Yields.bind {m : Run α} {f : α → Run β} {l : List Append} {k : α → Store → List Append}
    {P : α → Store → Prop} {Q : β → Store → Prop} (hm : K.Yields m s l P)
    (hf : ∀ a t, K.Fair t → P a t → K.Yields (f a) t (k a t) Q) :
    K.Yields (m >>= f) s (l ++ after m s k) Q := by
  intro b u e
  obtain ⟨a, t, h, e⟩ := bind_eq_ok e
  obtain ⟨g, sh, p⟩ := hm a t h
  obtain ⟨g', sh', q⟩ := hf a t g p b u e
  refine ⟨g', fun out ho => ?_, q⟩
  rw [after_ok h, written_append, ← String.append_assoc]
  exact sh' _ (sh out ho)

/-- Runs in sequence, the first of which adds nothing. -/
theorem Yields.first {m : Run α} {f : α → Run β} {k : α → Store → List Append}
    {P : α → Store → Prop} {Q : β → Store → Prop} (hm : K.Yields m s [] P)
    (hf : ∀ a t, K.Fair t → P a t → K.Yields (f a) t (k a t) Q) :
    K.Yields (m >>= f) s (after m s k) Q :=
  hm.bind hf

/-- Runs in sequence, the second of which adds nothing. -/
theorem Yields.last {m : Run α} {f : α → Run β} {l : List Append} {P : α → Store → Prop}
    {Q : β → Store → Prop} (hm : K.Yields m s l P)
    (hf : ∀ a t, K.Fair t → P a t → K.Yields (f a) t [] Q) : K.Yields (m >>= f) s l Q := by
  have h := hm.bind (k := fun _ _ => []) hf
  rwa [after_nil, List.append_nil] at h

theorem Yields.reading {k : Store → Run β} {l : List Append} {Q : β → Store → Prop}
    (h : K.Yields (k s) s l Q) : K.Yields (get >>= k) s l Q :=
  h

theorem yields_pure (g : K.Fair s) {Q : α → Store → Prop} {a : α} (q : Q a s) :
    K.Yields (pure a : Run α) s [] Q := by
  intro b t e
  cases e
  exact ⟨g, fun out ho => by rwa [written, String.append_empty], q⟩

theorem adds_pure (g : K.Fair s) (a : α) : K.Adds (pure a : Run α) s [] :=
  yields_pure g trivial

theorem yields_exhausted {l : List Append} {Q : α → Store → Prop} :
    K.Yields (throw .exhausted : Run α) s l Q := by
  intro _ _ e
  cases e

theorem yields_fail {l : List Append} {Q : α → Store → Prop} (f : Fault) :
    K.Yields (fail f : Run α) s l Q := by
  intro _ _ e
  cases e

/-- Runs that leave the scopes and the functions as they are. -/
theorem yields_of_same {m : Run α} {Q : α → Store → Prop} (g : K.Fair s)
    (h : ∀ a t, m s = .ok a t → t.scopes = s.scopes ∧ t.functions = s.functions ∧ Q a t) :
    K.Yields m s [] Q := by
  intro a t e
  obtain ⟨hs, hf, q⟩ := h a t e
  refine ⟨⟨hs ▸ g.size, hs ▸ g.alone, hf ▸ g.closures⟩, fun out ho => ?_, q⟩
  rw [Shows, hs, written, String.append_empty]
  exact ho

theorem adds_onHeap {m : Run α} (h : OnHeap m) (g : K.Fair s) : K.Adds m s [] := by
  refine yields_of_same g fun a t e => ?_
  have hs := h.scopes s
  have hf := h.functions s
  rw [e] at hs hf
  exact ⟨hs, hf, trivial⟩

theorem adds_asCall {m : Run α} {l : List Append} {Q : α → Store → Prop}
    (h : K.Yields m { s with depth := s.depth + 1 } l Q)
    (hq : ∀ a t, Q a t → Q a { t with depth := t.depth - 1 }) : K.Yields (asCall m) s l Q := by
  intro a t e
  obtain ⟨u, hr, rfl⟩ := asCall_eq_ok e
  obtain ⟨g, sh, q⟩ := h _ _ hr
  exact ⟨⟨g.size, g.alone, g.closures⟩, sh, hq _ _ q⟩

/-! ### Names -/

theorem Fair.put (g : K.Fair s) {r : Ref} (h : n ≠ K.name ∨ r = K.scope) (v : Variable) :
    K.Fair (s.withScopes (Scopes.put s.scopes r n v)) where
  size := by
    rw [Store.scopes_withScopes, Scopes.size_put]
    exact g.size
  alone q hq := by
    rw [Store.scopes_withScopes, Scopes.Unbound, Scopes.scope_put]
    split
    · rename_i hr
      rw [Scope.get?_put_of_ne (h.resolve_right fun he => hq (hr.1.symm.trans he)).symm]
      exact g.alone q hq
    · exact g.alone q hq
  closures := g.closures

theorem Shows.put {out : String} (h : K.Shows s out) (hn : n ≠ K.name) (r : Ref) (v : Variable) :
    K.Shows (s.withScopes (Scopes.put s.scopes r n v)) out := by
  rw [Shows, Store.scopes_withScopes, Scopes.scope_put]
  split
  · rw [Scope.get?_put_of_ne hn.symm]
    exact h
  · exact h

theorem Fair.shows_put (g : K.Fair s) (out : String) :
    K.Shows (s.withScopes (Scopes.put s.scopes K.scope K.name ⟨.string out, true⟩)) out := by
  rw [Shows, Store.scopes_withScopes, Scopes.get?_scope_put _ g.size, if_pos ⟨rfl, rfl⟩]

/-- Runs that bind another name. -/
theorem yields_of_put {m : Run α} {Q : α → Store → Prop} (g : K.Fair s) (hn : n ≠ K.name)
    (h : ∀ a t, m s = .ok a t →
      Q a t ∧ (t = s ∨ ∃ r v, t = s.withScopes (Scopes.put s.scopes r n v))) :
    K.Yields m s [] Q := by
  intro a t e
  obtain ⟨q, rfl | ⟨r, v, rfl⟩⟩ := h a t e
  · exact ⟨g, fun out ho => by rwa [written, String.append_empty], q⟩
  · refine ⟨g.put (.inl hn) v, fun out ho => ?_, q⟩
    rw [written, String.append_empty]
    exact ho.put hn r v

theorem adds_lookUp (g : K.Fair s) : K.Adds (lookUp env n) s [] := by
  refine yields_of_same g fun a t e => ?_
  rw [lookUp_run] at e
  split at e <;> cases e
  exact ⟨rfl, rfl, trivial⟩

theorem adds_typeOfName (g : K.Fair s) : K.Adds (typeOfName env n) s [] := by
  refine yields_of_same g fun a t e => ?_
  rw [typeOfName_run] at e
  split at e <;> cases e <;> exact ⟨rfl, rfl, trivial⟩

theorem adds_assignName (g : K.Fair s) (hn : n ≠ K.name) (value : Value) :
    K.Adds (assignName env n value) s [] := by
  refine yields_of_put g hn fun a t e => ⟨trivial, ?_⟩
  rw [assignName_run] at e
  split at e
  · split at e <;> cases e
    exact .inr ⟨_, _, rfl⟩
  · cases e

theorem adds_define (g : K.Fair s) (hn : n ≠ K.name) (value : Value) (mutable : Bool) :
    K.Adds (define env n value mutable) s [] := by
  refine yields_of_put g hn fun a t e => ⟨trivial, ?_⟩
  rw [define_run] at e
  cases e
  exact .inr ⟨_, _, rfl⟩

theorem adds_declare (g : K.Fair s) (hn : n ≠ K.name) (value : Value) (mutable : Bool) :
    K.Adds (declare env n value mutable) s [] := by
  refine yields_of_put g hn fun a t e => ⟨trivial, ?_⟩
  rw [declare_run] at e
  split at e <;> cases e
  exact .inr ⟨_, _, rfl⟩

theorem adds_declareVar (g : K.Fair s) (hn : n ≠ K.name) : K.Adds (declareVar env n) s [] := by
  refine yields_of_put g hn fun a t e => ⟨trivial, ?_⟩
  rw [declareVar_run] at e
  split at e <;> cases e
  · exact .inl rfl
  · exact .inr ⟨_, _, rfl⟩

theorem yields_newScope (g : K.Fair s) (i : K.Inside env) (ofFunction : Bool) :
    K.Yields (newScope ofFunction env) s [] fun inner _ => K.Inside inner := by
  intro inner t e
  rw [newScope_run] at e
  cases e
  refine ⟨⟨?_, fun r hr => ?_, g.closures⟩, fun out ho => ?_, i.cons _⟩
  · rw [Store.scopes_withScopes, Scopes.size_opened]
    exact Nat.lt_succ_of_lt g.size
  · rw [Store.scopes_withScopes, Scopes.Unbound, Scopes.scope_opened]
    exact g.alone r hr
  · rw [Shows, Store.scopes_withScopes, Scopes.scope_opened, written, String.append_empty]
    exact ho

/-! ### Functions -/

theorem adds_newFunction (g : K.Fair s) {d : Definition} (h : K.name ∉ d.rewrites)
    (i : K.Inside env) : K.Adds (newFunction (.closure d env)) s [] := by
  intro f t e
  cases e
  refine ⟨⟨g.size, g.alone, fun d' env' hm => ?_⟩, fun out ho => ?_, trivial⟩
  · rcases Array.mem_push.mp hm with hm | hm
    · exact g.closures d' env' hm
    · cases hm
      exact ⟨h, i⟩
  · rwa [written, String.append_empty]

theorem ne_of_name {d : Definition} (h : K.name ∉ d.rewrites) (hn : d.name = some n) :
    n ≠ K.name := by
  rintro rfl
  rw [d.rewrites_eq, hn] at h
  exact h (List.mem_append_left _ (List.mem_append_left _ List.mem_cons_self))

theorem adds_functionValue (g : K.Fair s) {d : Definition} (h : K.name ∉ d.rewrites)
    (i : K.Inside env) : K.Adds (functionValue d env) s [] := by
  cases e : d.name with
  | none =>
      rw [functionValue_of_unnamed e]
      exact adds_newFunction g h i
  | some own =>
      rw [functionValue_of_named e]
      refine (yields_newScope g i false).last fun inner t g₁ i₁ => ?_
      refine (adds_newFunction g₁ h i₁).last fun f u g₂ _ => ?_
      exact (adds_define g₂ (ne_of_name h e) f false).last fun _ v g₃ _ => adds_pure g₃ f

theorem adds_declareFunction (g : K.Fair s) {d : Definition} (hn : d.name.getD "" ≠ K.name)
    (h : K.name ∉ d.rewrites) (i : K.Inside env) : K.Adds (declareFunction d env) s [] :=
  (adds_newFunction g h i).last fun f _ g₁ _ =>
    (adds_declareVar g₁ hn).last fun _ _ g₂ _ => adds_assignName g₂ hn f

theorem not_mem_function {d : Definition} (h : K.name ∉ (Stmt.function d).rewrites) :
    d.name.getD "" ≠ K.name ∧ K.name ∉ d.rewrites := by
  rw [Stmt.rewrites, List.mem_cons, not_or] at h
  exact ⟨Ne.symm h.1, h.2⟩

theorem adds_declareFunctions (i : K.Inside env) :
    ∀ {body : List Stmt} {s : Store}, K.Fair s → K.name ∉ rewritesBody body →
      K.Adds (declareFunctions env body) s []
  | [], _, g, _ => adds_pure g ()
  | first :: rest, s, g, h => by
      rw [rewritesBody, List.mem_append, not_or] at h
      have others : ∀ {t : Store}, K.Fair t → K.Adds (declareFunctions env rest) t [] :=
        fun g' => adds_declareFunctions i g' h.2
      cases first with
      | function d =>
          obtain ⟨hn, hd⟩ := not_mem_function h.1
          exact (adds_declareFunction g hn hd i).last fun _ t g' _ => others g'
      | _ => exact others g

/-! ### Calls -/

theorem adds_bindParameters : ∀ {names : List String} {s : Store} (arguments : List Value),
    K.Fair s → (∀ n ∈ names, n ≠ K.name) → K.Adds (bindParameters env names arguments) s []
  | [], _, arguments, g, _ => adds_pure g arguments
  | n :: _, _, arguments, g, hn =>
      (adds_define g (hn n List.mem_cons_self) _ true).last fun _ _ g' _ =>
        adds_bindParameters arguments.tail g' fun m hm => hn m (List.mem_cons_of_mem _ hm)

theorem adds_bindRest (g : K.Fair s) {rest : Option String} (hn : ∀ n ∈ rest.toList, n ≠ K.name)
    (left : List Value) : K.Adds (bindRest env rest left) s [] := by
  cases rest with
  | none => exact adds_pure g ()
  | some own =>
      refine (adds_onHeap (onHeap_newArray left.toArray) g).last fun v t g' _ => ?_
      exact adds_define g' (hn own List.mem_cons_self) v true

theorem adds_declareVars : ∀ {names : List String} {s : Store}, K.Fair s →
    (∀ n ∈ names, n ≠ K.name) → K.Adds (declareVars env names) s []
  | [], _, g, _ => adds_pure g ()
  | n :: _, _, g, hn =>
      (adds_declareVar g (hn n List.mem_cons_self)).last fun _ _ g' _ =>
        adds_declareVars g' fun m hm => hn m (List.mem_cons_of_mem _ hm)

theorem ne_of_not_mem {names : List String} (h : K.name ∉ names) : ∀ n ∈ names, n ≠ K.name :=
  fun _ hm he => h (he ▸ hm)

theorem adds_hoist (g : K.Fair s) (i : K.Inside env) {body : List Stmt}
    (h : K.name ∉ rewritesBody body) : K.Adds (hoist env body) s [] :=
  (adds_declareVars g (ne_of_not_mem fun hm => h (mem_rewritesBody_of_hoisted body hm))).last
    fun _ _ g' _ => adds_declareFunctions i g' h

theorem yields_enter (g : K.Fair s) {d : Definition} (h : K.name ∉ d.rewrites)
    (i : K.Inside env) (arguments : List Value) :
    K.Yields (enter d env arguments) s [] fun inner _ => K.Inside inner := by
  rw [d.rewrites_eq, List.mem_append, List.mem_append, List.mem_append, not_or, not_or,
    not_or] at h
  obtain ⟨⟨-, hparameters, hrest⟩, hbody⟩ := h
  rw [enter_eq]
  refine (yields_newScope g i true).last fun inner t g₁ i₁ => ?_
  refine (adds_bindParameters arguments g₁ (ne_of_not_mem hparameters)).last
    fun left u g₂ _ => ?_
  refine (adds_bindRest g₂ (ne_of_not_mem hrest) left).last fun _ v g₃ _ => ?_
  exact (adds_hoist g₃ i₁ hbody).last fun _ w g₄ _ => yields_pure g₄ i₁

/-! ### Declarations and loops -/

theorem adds_bindDeclared (g : K.Fair s) (hn : n ≠ K.name) (kind : DeclKind)
    (value : Option Value) : K.Adds (bindDeclared kind n value env) s [] := by
  cases kind with
  | var =>
      refine (adds_declareVar g hn).last fun _ t g' _ => ?_
      cases value with
      | none => exact adds_pure g' ()
      | some v => exact adds_assignName g' hn v
  | «let» => exact adds_declare g hn _ true
  | const => exact adds_declare g hn _ false

theorem yields_bindRound (g : K.Fair s) {binding : LoopBinding} (hn : binding.name ≠ K.name)
    (i : K.Inside env) (item : Value) :
    K.Yields (bindRound binding item env) s [] fun inner _ => K.Inside inner := by
  obtain ⟨kind, n⟩ := binding
  have own : ∀ mutable : Bool, K.Yields
      (newScope false env >>= fun inner => define inner n item mutable >>= fun _ => pure inner) s []
      fun inner _ => K.Inside inner := by
    intro mutable
    refine (yields_newScope g i false).last fun inner t g₁ i₁ => ?_
    exact (adds_define g₁ hn item mutable).last fun _ u g₂ _ => yields_pure g₂ i₁
  cases kind with
  | none => exact (adds_assignName g hn item).last fun _ t g' _ => yields_pure g' i
  | some kind =>
      cases kind with
      | var =>
          refine (adds_declareVar g hn).last fun _ t g₁ _ => ?_
          exact (adds_assignName g₁ hn item).last fun _ u g₂ _ => yields_pure g₂ i
      | «let» => exact own true
      | const => exact own false

/-! ### Assignments -/

theorem adds_read (g : K.Fair s) (place : Place) : K.Adds (place.read env) s [] := by
  cases place with
  | name word => exact adds_lookUp g
  | property base key => exact adds_onHeap (onHeap_getProperty base key) g

theorem adds_write (g : K.Fair s) {place : Place} (hp : place ≠ .name K.name) (value : Value) :
    K.Adds (place.write env value) s [] := by
  cases place with
  | name word => exact adds_assignName g (fun he => hp (congrArg _ he)) value
  | property base key => exact adds_onHeap (onHeap_setProperty base key value) g

/-- What a string becomes when a value is added to it. -/
theorem add_string_ok {out : String} {operand v : Value} {t : Store}
    (h : operate .add (.string out) operand s = .ok v t) :
    v = .string (out ++ s.text (s.primitive operand)) := by
  have joined : add.join out (s.text (s.primitive operand)) s = .ok v t := h
  rw [add.join] at joined
  split at joined <;> cases joined
  rfl

/-- What the sink holds is what is read from inside. -/
theorem Fair.lookUp_eq_ok (g : K.Fair s) (i : K.Inside env) {current : Value} {t : Store}
    (h : lookUp env K.name s = .ok current t) :
    t = s ∧ ∀ out, K.Shows s out → current = .string out := by
  rw [lookUp_run, g.find? i] at h
  cases hv : (Scopes.scope s.scopes K.scope).get? K.name with
  | none => rw [hv] at h; cases h
  | some v =>
      rw [hv] at h
      cases h
      refine ⟨rfl, fun out ho => ?_⟩
      cases hv.symm.trans ho
      rfl

/-- Writing a string to the sink from inside. -/
theorem Fair.assignName_eq_ok (g : K.Fair s) (i : K.Inside env) {value : Value} {u : Unit}
    {t : Store} (h : assignName env K.name value s = .ok u t) :
    K.Fair t ∧ ∀ out, value = .string out → K.Shows t out := by
  rw [assignName_run, g.find? i] at h
  cases hv : (Scopes.scope s.scopes K.scope).get? K.name with
  | none => rw [hv] at h; cases h
  | some v =>
      rw [hv] at h
      dsimp only [Option.map_some] at h
      split at h <;> cases h
      refine ⟨g.put (.inr rfl) _, ?_⟩
      rintro out rfl
      exact g.shows_put out

/-- **Additions to the sink.**  The sink is read before the right side is computed, so that what the
right side adds is overwritten. -/
theorem adds_append (g : K.Fair s) (i : K.Inside env) {operand : Run Value}
    {l : Store → List Append} (h : K.Adds operand s (l s)) :
    K.Adds (lookUp env K.name >>= fun current => operand >>= fun w =>
        operate .add current w >>= fun v => assignName env K.name v >>= fun _ => pure v) s
      (after (lookUp env K.name) s fun _ t => (l t).map .enclose ++
        after operand t fun w u => [⟨u.text (u.primitive w), false⟩]) := by
  intro v u e
  obtain ⟨current, s', hread, e₁⟩ := bind_eq_ok e
  obtain ⟨rfl, hcurrent⟩ := g.lookUp_eq_ok i hread
  obtain ⟨w, t, hw, e₂⟩ := bind_eq_ok e₁
  obtain ⟨sum, t', hsum, e₃⟩ := bind_eq_ok e₂
  obtain ⟨_, t'', hwrite, e₄⟩ := bind_eq_ok e₃
  cases e₄
  obtain ⟨g₁, -, -⟩ := h w t hw
  obtain ⟨g₂, -, -⟩ := adds_onHeap (onHeap_operate .add current w) g₁ v t' hsum
  obtain ⟨g₃, hshows⟩ := g₂.assignName_eq_ok i hwrite
  refine ⟨g₃, fun out ho => ?_, trivial⟩
  obtain rfl := hcurrent out ho
  rw [after_ok hread, written_append, written_enclosed, String.empty_append, after_ok hw]
  exact hshows _ ((add_string_ok hsum).trans (by rw [written, written]; simp))

end Sink

end Stencil.Script
