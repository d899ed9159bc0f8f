import Stencil.Proofs.Grammar.Formed
import Stencil.Proofs.Jobs.Contract
import Stencil.Proofs.Jobs.Scoping
import Stencil.Proofs.Runs.Unbound

/-!
# Jobs — runs of well-formed scripts

What a run of a well-formed script relies on at every point, as one contract: its trees are
well-formed, hoisted names are bound where they are declared, and names are bound anew only in new
scopes.  A horizon says which scopes count as new, and for one of the old scopes, that of a call
that is open, which names may be declared there.

* `Horizon.sound`: the contract is sound.
* `Horizon.admits_log`: so every operation in a log keeps to it.
-/

namespace Stencil.Script

/-- **Horizons**: the scopes from `base` on count as new.  In the scope `activation`, that of a call
that is open, only names that it hoists may be declared for the whole function. -/
structure Horizon where
  base : Nat
  activation : Ref
  hoists : String → Prop

/-- The horizon that lets everything happen. -/
def Horizon.open : Horizon := ⟨0, 0, fun _ => True⟩

/-- Whether a statement ends in a jump out of a round. -/
def Completion.Jumps : Completion → Prop
  | .break | .continue => True
  | _ => False

/-- Whether a statement opens a scope for all that it does. -/
def Stmt.ownsScope : Stmt → Prop
  | .block _ | .loop _ _ _ _ => True
  | _ => False

namespace Horizon
variable (w : Horizon)

/-- Whether names are bound for the whole function at a place, and may be declared there. -/
structure Places (σ : Scopes) (env : Env) (names : List String) : Prop where
  stands : Stands σ env
  bound : ∀ name ∈ names, ((σ.scope (varScope env)).get? name).isSome
  hoisted : varScope env = w.activation → ∀ name ∈ names, w.hoists name

/-- What jobs rely on. -/
def Relies : Job → Store → Prop
  | .eval e _, _ => e.Formed
  | .evalAll es _, _ => FormedAll es
  | .evalFields fields _ _, _ => FormedFields fields
  | .evalPlace e _, _ => e.isAssignable = true ∧ e.Formed
  | .evalCall callee arguments _, _ => callee.Formed ∧ FormedAll arguments
  | .invoke d _ _, _ => d.Formed
  | .exec stmt env, s =>
    stmt.Formed True ∧ w.Places s.scopes env stmt.hoisted ∧ (stmt.ownsScope ∨ w.base ≤ ownScope env)
  | .execAll body env, s =>
    FormedBody True body ∧ w.Places s.scopes env (hoistedNames body) ∧ w.base ≤ ownScope env
  | .execBindings kind bindings env, s =>
    FormedBindings kind bindings ∧ w.Places s.scopes env (Stmt.declare kind bindings).hoisted ∧
      w.base ≤ ownScope env
  | .execLoop test update body env, s =>
    (FormedOption test ∧ FormedOption update ∧ body.Formed True) ∧
      w.Places s.scopes env body.hoisted ∧ w.base ≤ ownScope env
  | .evalTest test _, _ => FormedOption test
  | .evalUpdate update _, _ => FormedOption update
  | .execEach binding _ body env, s =>
    (isName binding.name = true ∧ body.Formed True) ∧
      w.Places s.scopes env (loopHoisted binding ++ body.hoisted) ∧ w.base ≤ ownScope env
  | _, _ => True

/-- What jobs give. -/
def Gives : (j : Job) → j.Result → Prop
  | .evalPlace _ _, place => ∀ word, place = .name word → isName word = true
  | .exec stmt _, c => stmt.Formed False → ¬ c.Jumps
  | .execAll body _, c => FormedBody False body → ¬ c.Jumps
  | .execLoop _ _ _ _, c => ¬ c.Jumps
  | .execEach _ _ _ _, c => ¬ c.Jumps
  | _, _ => True

/-- What operations rely on. -/
def Admits (σ : Scopes) : Op → Prop
  | .fail f => f ≠ .invalidTarget
  | .newFunction c => ∀ d env, c = .closure d env → d.Formed
  | .define env name _ _ =>
    isName name = true ∧ w.base ≤ ownScope env ∧ ownScope env < σ.size ∧
      ∀ v, (σ.scope (ownScope env)).get? name = some v → v.mutable = true
  | .declare env name _ _ =>
    isName name = true ∧ w.base ≤ ownScope env ∧ ownScope env < σ.size
  | .declareVar env name =>
    isName name = true ∧
      (w.base ≤ varScope env ∨ ((σ.scope (varScope env)).get? name).isSome) ∧
      (varScope env = w.activation → w.hoists name)
  | .assign _ name _ => isName name = true
  | _ => True

/-- What operations give. -/
def Yields : (o : Op) → Store → o.Result → Store → Prop
  | .look, _, a, t => a = t
  | .newArray _, s, _, t => t.scopes = s.scopes
  | .newFunction _, s, _, t => t.scopes = s.scopes
  | .newScope b env, s, a, t => a = ⟨s.scopes.size, b⟩ :: env ∧ t.scopes = Scopes.opened s.scopes
  | .define env name v m, s, _, t => t.scopes = Scopes.put s.scopes (ownScope env) name ⟨v, m⟩
  | .declareVar env name, s, _, t =>
    varScope env < s.scopes.size → ((Scopes.scope t.scopes (varScope env)).get? name).isSome
  | _, _, _, _ => True

/-- What holds of every store: scopes yet to be opened are new, and not that of the open call, and
closures are well-formed. -/
structure Inv (s : Store) : Prop where
  base : w.base ≤ s.scopes.size
  apart : w.activation < s.scopes.size ∨ ∀ name, w.hoists name
  closures : ∀ d env, .closure d env ∈ s.functions → d.Formed

/-- **The contract of a well-formed script.** -/
def contract : Contract where
  inv := w.Inv
  keeps s t := Scopes.Grows s.scopes t.scopes
  pre := w.Relies
  opPre o s := w.Admits s.scopes o
  post j _ a _ := Gives j a
  opPost := Yields
  trusts _ _ := True

variable {w}

/-! ### Places -/

section
variable {σ τ : Scopes} {env : Env} {names names' : List String}

theorem Places.mono (h : w.Places σ env names) (g : σ.Grows τ) : w.Places τ env names :=
  ⟨h.stands.mono g.size, fun name hn => g.bound _ _ (h.bound name hn), h.hoisted⟩

theorem Places.subset (h : w.Places σ env names) (hs : ∀ name ∈ names', name ∈ names) :
    w.Places σ env names' :=
  ⟨h.stands, fun name hn => h.bound name (hs name hn), fun he name hn =>
    h.hoisted he name (hs name hn)⟩

theorem Places.left (h : w.Places σ env (names ++ names')) : w.Places σ env names :=
  h.subset fun _ => List.mem_append_left _

theorem Places.right (h : w.Places σ env (names ++ names')) : w.Places σ env names' :=
  h.subset fun _ => List.mem_append_right _

theorem Places.block (h : w.Places σ env names) :
    w.Places σ.opened (⟨σ.size, false⟩ :: env) names := by
  have hvar := varScope_block h.stands.nonempty σ.size
  exact ⟨h.stands.block, by rw [hvar]; exact (h.mono (Scopes.grows_opened σ)).bound,
    by rw [hvar]; exact h.hoisted⟩

end

/-- A scope yet to be opened is not that of the open call. -/
theorem Inv.hoists {s : Store} (h : w.Inv s) (name : String) :
    s.scopes.size = w.activation → w.hoists name := fun he =>
  h.apart.elim (fun hlt => absurd (he ▸ hlt) (Nat.lt_irrefl _)) fun all => all name

/-! ### Operations -/

theorem sparesConstants_of_admits {o : Op} {σ : Scopes} (h : w.Admits σ o) : o.SparesConstants σ := by
  cases o with
  | define => exact h.2.2.2
  | _ => trivial

theorem bindsFrom_of_admits {o : Op} {σ : Scopes} (h : w.Admits σ o) : o.BindsFrom w.base σ := by
  cases o with
  | define => exact h.2.1
  | declare => exact h.2.1
  | declareVar => exact h.2.1
  | _ => trivial

theorem yields_of_run {o : Op} {s t : Store} {a : o.Result} (hr : o.run s = .ok a t) :
    Yields o s a t := by
  cases o with
  | look | newArray | newFunction | define => cases hr; rfl
  | newScope => cases hr; exact ⟨rfl, rfl⟩
  | declareVar env name =>
      intro hlt
      simp only [Op.run, declareVar_run] at hr
      split at hr
      · rename_i h
        cases hr
        rw [h]
        rfl
      · cases hr
        rw [Store.scopes_withScopes, Scopes.get?_scope_put _ hlt, if_pos ⟨rfl, rfl⟩]
        rfl
  | _ => trivial

theorem inv_of_run {o : Op} {s t : Store} {a : o.Result} (hi : w.Inv s) (ho : w.Admits s.scopes o)
    (hr : o.run s = .ok a t) : w.Inv t := by
  have effect := Op.effect hr
  have grows := effect.scopes.grows.size
  refine ⟨Nat.le_trans hi.base grows, hi.apart.imp_left fun hlt => Nat.lt_of_lt_of_le hlt grows,
    fun d env hm => ?_⟩
  rcases effect.functions _ hm with hm | rfl
  · exact hi.closures d env hm
  · exact ho d env rfl

/-! ### Names -/

open Contract (follows_bind follows_pure follows_perform follows_fail follows_ite)

theorem steady (w : Horizon) : w.contract.Steady where
  refl s := .refl s.scopes
  trans _ _ _ := .trans
  deeper s h := ⟨⟨h.base, h.apart, h.closures⟩, .refl s.scopes⟩
  shallower s h := ⟨⟨h.base, h.apart, h.closures⟩, .refl s.scopes⟩

section
variable {s : Store} {env : Env}

/-- A scope that is new: it exists, and no old one is meant. -/
structure Fresh (w : Horizon) (σ : Scopes) (r : Ref) : Prop where
  base : w.base ≤ r
  lt : r < σ.size
  mutable : ∀ name v, (σ.scope r).get? name = some v → v.mutable = true

theorem fresh_opened {σ : Scopes} (h : w.base ≤ σ.size) : w.Fresh σ.opened σ.size where
  base := h
  lt := by simp
  mutable name v hv := by
    rw [Scopes.scope_opened, Scopes.scope_of_le (Nat.le_refl _)] at hv
    cases hv

theorem Fresh.put {σ : Scopes} {r : Ref} (h : w.Fresh σ r) (name : String) (value : Value) :
    w.Fresh (σ.put r name ⟨value, true⟩) r where
  base := h.base
  lt := by simpa using h.lt
  mutable word v hv := by
    rw [Scopes.get?_scope_put _ h.lt] at hv
    split at hv
    · cases hv
      rfl
    · exact h.mutable word v hv

theorem follows_functionValue {d : Definition} (hi : w.Inv s) (hd : d.Formed) :
    w.contract.Follows (fun _ _ => True) (.functionValue d env) s := by
  obtain ⟨name, parameters, rest, body⟩ := d
  cases name with
  | none =>
      refine ⟨fun d' env' h => ?_, fun _ _ _ _ _ => trivial⟩
      cases h
      exact hd
  | some name =>
      simp only [Course.functionValue, Definition.name, follows_bind, follows_pure]
      refine ⟨trivial, fun inner t _ _ hinner =>
        ⟨fun d' env' h => ?_, fun f u _ _ hf => ⟨?_, fun _ _ _ _ _ => trivial⟩⟩⟩
      · cases h
        exact hd
      · obtain ⟨rfl, ht⟩ := hinner
        have fresh := fresh_opened (w := w) hi.base
        rw [← ht, ← show u.scopes = t.scopes from hf] at fresh
        exact ⟨hd.1 name (by simp), fresh.base, fresh.lt, fresh.mutable name⟩

/-- A function is declared where its name is bound. -/
theorem follows_declareFunction {d : Definition} (hi : w.Inv s) (hname : d.name.isSome = true)
    (hd : d.Formed) (hp : w.Places s.scopes env d.name.toList) :
    w.contract.Follows (fun _ t => w.Inv t ∧ Scopes.Grows s.scopes t.scopes)
      (.declareFunction d env) s := by
  obtain ⟨_ | name, parameters, rest, body⟩ := d
  · cases hname
  have legal : isName name = true := hd.1 name (by simp)
  have own : name ∈ [name] := List.mem_singleton_self _
  refine (w.steady.follows (Q := fun _ _ => True) hi ?_).imp fun _ t h => ⟨h.1, h.2.1⟩
  simp only [Course.declareFunction, follows_bind]
  refine ⟨fun d' env' h => ?_, fun f t _ g _ => ⟨⟨legal, .inr ((hp.mono g).bound name own),
    fun he => hp.hoisted he name own⟩, fun _ u _ _ _ => ⟨legal, fun _ _ _ _ _ => trivial⟩⟩⟩
  cases h
  exact hd

/-- The functions in a body are declared where its hoisted names are bound. -/
theorem follows_declareFunctions {body : List Stmt} (hi : w.Inv s) (hb : FormedBody False body)
    (hp : w.Places s.scopes env (hoistedNames body)) :
    w.contract.Follows (fun _ _ => True) (.declareFunctions env body) s := by
  induction body generalizing s with
  | nil => trivial
  | cons first rest ih =>
      cases first with
      | function d =>
          simp only [Course.declareFunctions, follows_bind]
          exact (follows_declareFunction hi hb.1.1 hb.1.2 hp.left).imp fun _ t h =>
            ih h.1 hb.2 (hp.right.mono h.2)
      | _ => exact ih hi hb.2 hp.right

theorem follows_bindParameters {names : List String} {arguments : List Value}
    (hn : ∀ name ∈ names, isName name = true) (hf : w.Fresh s.scopes (ownScope env)) :
    w.contract.Follows (fun _ t => w.Fresh t.scopes (ownScope env))
      (.bindParameters env names arguments) s := by
  induction names generalizing arguments s with
  | nil => exact hf
  | cons name names ih =>
      simp only [Course.bindParameters, follows_bind]
      refine ⟨⟨hn name List.mem_cons_self, hf.base, hf.lt, hf.mutable name⟩, fun _ t _ _ ht => ?_⟩
      refine ih (fun other ho => hn other (List.mem_cons_of_mem _ ho)) ?_
      rw [show t.scopes = _ from ht]
      exact hf.put name _

theorem follows_bindRest {rest : Option String} {left : List Value}
    (hn : ∀ name ∈ rest, isName name = true) (hf : w.Fresh s.scopes (ownScope env)) :
    w.contract.Follows (fun _ t => w.Fresh t.scopes (ownScope env)) (.bindRest env rest left) s := by
  cases rest with
  | none => exact hf
  | some name =>
      simp only [Course.bindRest, follows_bind]
      refine ⟨trivial, fun _ t _ _ ht => ?_⟩
      rw [← show t.scopes = s.scopes from ht] at hf
      refine ⟨⟨hn name rfl, hf.base, hf.lt, hf.mutable name⟩, fun _ u _ _ hu => ?_⟩
      show w.Fresh u.scopes (ownScope env)
      rw [show u.scopes = _ from hu]
      exact hf.put name _

/-- Hoisted names are bound in the scope of a call. -/
theorem follows_declareVars {names : List String} (hn : ∀ name ∈ names, isName name = true)
    (hb : w.base ≤ varScope env) (hlt : varScope env < s.scopes.size)
    (hh : ∀ name, varScope env = w.activation → w.hoists name) :
    w.contract.Follows (fun _ t => ∀ name ∈ names,
        ((Scopes.scope t.scopes (varScope env)).get? name).isSome)
      (.declareVars env names) s := by
  induction names generalizing s with
  | nil => exact fun _ h => (List.not_mem_nil h).elim
  | cons name names ih =>
      simp only [Course.declareVars, follows_bind]
      refine follows_perform ⟨hn name List.mem_cons_self, .inl hb, hh name⟩
        fun _ t hi g ht => ?_
      have hrest := ih (s := t) (fun other ho => hn other (List.mem_cons_of_mem _ ho))
        (Nat.lt_of_lt_of_le hlt g.size)
      refine (w.steady.follows hi hrest).imp fun _ u h => ?_
      intro other ho
      rcases List.mem_cons.mp ho with rfl | ho
      · exact h.2.1.bound _ _ (ht hlt)
      · exact h.2.2 other ho

/-- **A call opens a scope in which its hoisted names are bound.** -/
theorem follows_enter {d : Definition} {arguments : List Value} (hi : w.Inv s) (hd : d.Formed) :
    w.contract.Follows (fun inner t => w.Places t.scopes inner (hoistedNames d.body) ∧
        w.base ≤ ownScope inner)
      (.enter d env arguments) s := by
  obtain ⟨name, parameters, rest, body⟩ := d
  have legal : ∀ name ∈ parameters ++ rest.toList, isName name = true :=
    fun name hn => hd.1 name (List.mem_append_right _ hn)
  simp only [Course.enter, Definition.parameters, Definition.rest, Definition.body, follows_bind,
    follows_pure]
  refine follows_perform trivial fun inner t hit _ ht => ?_
  obtain ⟨rfl, ht⟩ := ht
  have fresh : w.Fresh t.scopes (ownScope (⟨s.scopes.size, true⟩ :: env)) := by
    rw [ht]
    exact fresh_opened hi.base
  have hvar : varScope (⟨s.scopes.size, true⟩ :: env) = s.scopes.size := varScope_call _ _
  -- the scope stays fresh for names that are bound once, until all hoisted names are bound in it
  refine (w.steady.follows hit (follows_bindParameters
    (fun name hn => legal name (List.mem_append_left _ hn)) fresh)).imp fun left u h => ?_
  obtain ⟨hiu, -, fresh⟩ := h
  refine (w.steady.follows hiu (follows_bindRest
    (fun name hn => legal name (List.mem_append_right _ (by simpa using hn))) fresh)).imp
    fun _ v h => ?_
  obtain ⟨hiv, -, fresh⟩ := h
  refine (w.steady.follows hiv (follows_declareVars
    (fun name hn => isName_of_mem_hoistedNames hd.2 hn) (by rw [hvar]; exact fresh.base)
    (by rw [hvar]; exact fresh.lt) (by rw [hvar]; exact hi.hoists))).imp fun _ x h => ?_
  obtain ⟨hix, g, bound⟩ := h
  have lt : s.scopes.size < x.scopes.size := Nat.lt_of_lt_of_le fresh.lt g.size
  have places : w.Places x.scopes (⟨s.scopes.size, true⟩ :: env) (hoistedNames body) :=
    ⟨⟨List.cons_ne_nil _ _, lt, by rw [hvar]; exact lt⟩, bound,
      by rw [hvar]; exact fun he name _ => hi.hoists name he⟩
  exact (w.steady.follows hix (follows_declareFunctions hix hd.2 places)).imp fun _ y h =>
    ⟨places.mono h.2.1, hi.base⟩

/-- The variable of a loop is bound in a new scope, or where its name is hoisted. -/
theorem follows_bindRound {binding : LoopBinding} {item : Value} (hi : w.Inv s)
    (hn : isName binding.name = true) (hp : w.Places s.scopes env (loopHoisted binding))
    (hb : w.base ≤ ownScope env) :
    w.contract.Follows (fun inner t => Stands t.scopes inner ∧ varScope inner = varScope env ∧
        w.base ≤ ownScope inner)
      (.bindRound binding item env) s := by
  obtain ⟨kind, name⟩ := binding
  have own (mutable : Bool) : w.contract.Follows (fun inner t => Stands t.scopes inner ∧
      varScope inner = varScope env ∧ w.base ≤ ownScope inner)
      (.ownRound name item mutable env) s := by
    simp only [Course.ownRound, follows_bind, follows_pure]
    refine follows_perform trivial fun inner t _ _ ht => ?_
    obtain ⟨rfl, ht⟩ := ht
    have fresh := fresh_opened (w := w) hi.base
    have stands := hp.stands.block
    rw [← ht] at fresh stands
    exact ⟨⟨hn, fresh.base, fresh.lt, fresh.mutable name⟩, fun _ _ _ g _ =>
      ⟨stands.mono g.size, varScope_block hp.stands.nonempty _, fresh.base⟩⟩
  have done {t : Store} (g : Scopes.Grows s.scopes t.scopes) :
      Stands t.scopes env ∧ varScope env = varScope env ∧ w.base ≤ ownScope env :=
    ⟨hp.stands.mono g.size, rfl, hb⟩
  cases kind with
  | none => exact ⟨hn, fun _ _ _ g _ => done g⟩
  | some kind =>
      cases kind with
      | var =>
          have hoisted : name ∈ loopHoisted ⟨some .var, name⟩ := List.mem_singleton_self _
          exact ⟨⟨hn, .inr (hp.bound name hoisted), fun he => hp.hoisted he name hoisted⟩,
            fun _ _ _ g _ => ⟨hn, fun _ _ _ g' _ => done (.trans g g')⟩⟩
      | «let» => exact own true
      | «const» => exact own false

theorem follows_bindDeclared {kind : DeclKind} {name : String} {e : Option Expr}
    {value : Option Value} (hn : isName name = true)
    (hp : w.Places s.scopes env (Stmt.declare kind [(name, e)]).hoisted)
    (hb : w.base ≤ ownScope env) :
    w.contract.Follows (fun _ t => Scopes.Grows s.scopes t.scopes)
      (.bindDeclared kind name value env) s := by
  cases kind with
  | var =>
      have hoisted : name ∈ (Stmt.declare .var [(name, e)]).hoisted := List.mem_singleton_self _
      refine ⟨⟨hn, .inr (hp.bound name hoisted), fun he => hp.hoisted he name hoisted⟩,
        fun _ t _ g _ => ?_⟩
      cases value with
      | none => exact g
      | some v => exact ⟨hn, fun _ u _ g' _ => Scopes.Grows.trans g g'⟩
  | «let» => exact ⟨⟨hn, hb, hp.stands.own⟩, fun _ _ _ g _ => g⟩
  | const => exact ⟨⟨hn, hb, hp.stands.own⟩, fun _ _ _ g _ => g⟩

/-- A target whose name is one. -/
def NamesLegally (place : Place) : Prop :=
  ∀ word, place = .name word → isName word = true

theorem follows_readPlace {Q : Value → Store → Prop} {place : Place}
    (hQ : ∀ v t, Scopes.Grows s.scopes t.scopes → Q v t) :
    w.contract.Follows Q (.readPlace env place) s := by
  cases place <;> exact ⟨trivial, fun v t _ g _ => hQ v t g⟩

theorem follows_writePlace {place : Place} {value : Value} (h : NamesLegally place) :
    w.contract.Follows (fun _ _ => True) (.writePlace env value place) s := by
  cases place with
  | name word => exact ⟨h word rfl, fun _ _ _ _ _ => trivial⟩
  | property base key => exact ⟨trivial, fun _ _ _ _ _ => trivial⟩

/-! ### Expressions and calls -/

theorem follows_ofExpr {e : Expr} (hi : w.Inv s) (h : e.Formed) :
    w.contract.Follows (fun _ _ => True) (.ofExpr env e) s := by
  cases e with
  | number | string | bool | null => trivial
  | name word => exact ⟨trivial, fun _ _ _ _ _ => trivial⟩
  | array items => exact ⟨h, fun _ _ _ _ _ => ⟨trivial, fun _ _ _ _ _ => trivial⟩⟩
  | object fields => exact ⟨h, fun _ _ _ _ _ => ⟨trivial, fun _ _ _ _ _ => trivial⟩⟩
  | function d => exact follows_functionValue hi h
  | member object key => exact ⟨h, fun _ _ _ _ _ => ⟨trivial, fun _ _ _ _ _ => trivial⟩⟩
  | index object key =>
      exact ⟨h.1, fun _ _ _ _ _ => ⟨h.2, fun _ _ _ _ _ => ⟨trivial, fun _ _ _ _ _ =>
        ⟨trivial, fun _ _ _ _ _ => trivial⟩⟩⟩⟩
  | call callee arguments => exact ⟨h, fun _ _ _ _ _ => trivial⟩
  | unary op operand =>
      rcases typeof_name_or op operand with ⟨word, rfl, rfl⟩ | hn
      · exact ⟨trivial, fun _ _ _ _ _ => trivial⟩
      · rw [Course.ofExpr]
        · exact ⟨h, fun _ _ _ _ _ => ⟨trivial, fun _ _ _ _ _ => trivial⟩⟩
        · exact hn
  | update increment before target =>
      simp only [Course.ofExpr, follows_bind, follows_pure]
      exact ⟨h, fun place t _ _ hplace => follows_readPlace fun v u _ =>
        ⟨trivial, fun _ _ _ _ _ => follows_writePlace hplace⟩⟩
  | binary op left right =>
      exact ⟨h.1, fun _ _ _ _ _ => ⟨h.2, fun _ _ _ _ _ => ⟨trivial, fun _ _ _ _ _ => trivial⟩⟩⟩
  | logical op left right =>
      exact ⟨h.1, fun v t _ _ _ => follows_ite (fun _ => trivial) fun _ =>
        ⟨h.2, fun _ _ _ _ _ => trivial⟩⟩
  | conditional test yes no =>
      exact ⟨h.1, fun v t _ _ _ => follows_ite (fun _ => ⟨h.2.1, fun _ _ _ _ _ => trivial⟩)
        fun _ => ⟨h.2.2, fun _ _ _ _ _ => trivial⟩⟩
  | assign op target value =>
      cases op with
      | none =>
          simp only [Course.ofExpr, follows_bind, follows_pure]
          exact ⟨⟨h.1, h.2.1⟩, fun place t _ _ hplace => ⟨h.2.2, fun v u _ _ _ =>
            follows_writePlace hplace⟩⟩
      | some op =>
          simp only [Course.ofExpr, follows_bind, follows_pure]
          exact ⟨⟨h.1, h.2.1⟩, fun place t _ _ hplace => follows_readPlace fun _ _ _ =>
            ⟨h.2.2, fun v u _ _ _ => ⟨trivial, fun _ _ _ _ _ => follows_writePlace hplace⟩⟩⟩

theorem follows_ofPlace {e : Expr} (ha : e.isAssignable = true) (h : e.Formed) :
    w.contract.Follows (fun place _ => NamesLegally place) (.ofPlace env e) s := by
  cases e with
  | name word =>
      intro other ho
      cases ho
      exact h
  | member object key => exact ⟨h, fun _ _ _ _ _ _ ho => by cases ho⟩
  | index object key =>
      exact ⟨h.1, fun _ _ _ _ _ => ⟨h.2, fun _ _ _ _ _ => ⟨trivial, fun _ _ _ _ _ _ ho => by cases ho⟩⟩⟩
  | _ => cases ha

theorem follows_callOrFail {f : Value} {arguments : List Value} {described : String} :
    w.contract.Follows (fun _ _ => True) (.callOrFail f arguments described) s := by
  unfold Course.callOrFail
  split
  · exact ⟨trivial, fun _ _ _ _ _ => trivial⟩
  · exact follows_fail.mpr fun hf => by cases hf

theorem follows_ofCall {callee : Expr} {arguments : List Expr} (hc : callee.Formed)
    (ha : FormedAll arguments) :
    w.contract.Follows (fun _ _ => True) (.ofCall arguments env callee) s := by
  cases callee with
  | member object key =>
      exact ⟨hc, fun _ _ _ _ _ => ⟨ha, fun _ _ _ _ _ => ⟨trivial, fun _ _ _ _ _ => trivial⟩⟩⟩
  | index object key =>
      exact ⟨hc.1, fun _ _ _ _ _ => ⟨hc.2, fun _ _ _ _ _ => ⟨trivial, fun _ _ _ _ _ =>
        ⟨ha, fun _ _ _ _ _ => ⟨trivial, fun _ _ _ _ _ => trivial⟩⟩⟩⟩⟩
  | _ => exact ⟨hc, fun _ _ _ _ _ => ⟨ha, fun _ _ _ _ _ => follows_callOrFail⟩⟩

theorem follows_ofMethod {described name : String} {receiver : Value} {arguments : List Value} :
    w.contract.Follows (fun _ _ => True) (.ofMethod described receiver name arguments) s := by
  unfold Course.ofMethod
  split
  · exact ⟨trivial, fun _ _ _ _ _ => trivial⟩
  · exact ⟨trivial, fun _ _ _ _ _ => trivial⟩
  · exact ⟨trivial, fun _ _ _ _ _ => trivial⟩
  · trivial
  · exact ⟨trivial, fun _ _ _ _ _ => ⟨trivial, fun _ _ _ _ _ => ⟨trivial, fun _ _ _ _ _ => trivial⟩⟩⟩
  · exact ⟨trivial, fun _ _ _ _ _ => follows_callOrFail⟩

theorem follows_ofCallable {r : Ref} {arguments : List Value} (hi : w.Inv s) :
    w.contract.Follows (fun _ _ => True) (.ofCallable arguments s (s.callable r)) s := by
  rcases hc : s.callable r with ⟨d, env⟩ | m | _ | _
  · exact ⟨hi.closures d env (Store.mem_functions hc), fun _ _ _ _ _ => trivial⟩
  · exact ⟨trivial, fun _ _ _ _ _ => trivial⟩
  · exact ⟨trivial, fun _ _ _ _ _ => trivial⟩
  · exact ⟨trivial, fun _ _ _ _ _ => ⟨trivial, fun _ _ _ _ _ => trivial⟩⟩

/-! ### Statements -/

theorem follows_nextRound {again : Course Completion} {c : Completion}
    (h : w.contract.Follows (fun c _ => ¬ c.Jumps) again s) :
    w.contract.Follows (fun c _ => ¬ c.Jumps) (.nextRound again c) s := by
  cases c with
  | normal => exact h
  | «continue» => exact h
  | «break» => exact id
  | «return» v => exact id

theorem follows_ofOption {e : Option Expr} (h : FormedOption e) :
    w.contract.Follows (fun _ t => Scopes.Grows s.scopes t.scopes) (.ofOption env e) s := by
  cases e with
  | none => exact Scopes.Grows.refl s.scopes
  | some e => exact ⟨h, fun v t _ g _ => g⟩

theorem follows_ofStmt {stmt : Stmt} (hi : w.Inv s) (h : stmt.Formed True)
    (hp : w.Places s.scopes env stmt.hoisted) (hb : stmt.ownsScope ∨ w.base ≤ ownScope env) :
    w.contract.Follows (fun c _ => stmt.Formed False → ¬ c.Jumps) (.ofStmt env stmt) s := by
  cases stmt with
  | expr e => exact ⟨h, fun _ _ _ _ _ _ => id⟩
  | declare kind bindings => exact ⟨⟨h, hp, hb.resolve_left id⟩, fun _ _ _ _ _ _ => id⟩
  | function d =>
      simp only [Course.ofStmt, follows_bind, follows_pure]
      exact (follows_declareFunction hi h.1 h.2 hp).imp fun _ _ _ _ => id
  | block body =>
      refine ⟨trivial, fun inner t _ _ ht => ?_⟩
      obtain ⟨rfl, ht⟩ := ht
      have inside := hp.block
      rw [← ht] at inside
      exact ⟨⟨h, inside, hi.base⟩, fun c u _ _ hc => hc⟩
  | branch test yes no =>
      have hbase := hb.resolve_left id
      refine ⟨h.1, fun v t _ g _ => follows_ite
        (fun _ => ⟨⟨h.2.1, hp.left.mono g, .inr hbase⟩, fun c u _ _ hc hf => hc hf.2.1⟩)
        fun _ => ?_⟩
      cases no with
      | none => exact fun _ => id
      | some stmt =>
          exact ⟨⟨h.2.2, hp.right.mono g, .inr hbase⟩, fun c u _ _ hc hf => hc hf.2.2⟩
  | loop init test update body =>
      refine ⟨trivial, fun inner t _ _ ht => ?_⟩
      obtain ⟨rfl, ht⟩ := ht
      have inside := hp.block
      rw [← ht] at inside
      have parts : FormedOption test ∧ FormedOption update ∧ body.Formed True :=
        ⟨h.2.2.1, h.2.2.2.1, h.2.2.2.2⟩
      cases init with
      | none => exact ⟨⟨parts, inside.right, hi.base⟩, fun c u _ _ hc _ => hc⟩
      | some first =>
          exact ⟨⟨h.2.1, inside.left, .inr hi.base⟩, fun c u _ g' _ =>
            ⟨⟨parts, inside.right.mono g', hi.base⟩, fun c v _ _ hc _ => hc⟩⟩
  | forIn binding subject body =>
      have hbase := hb.resolve_left id
      exact ⟨h.2.1, fun v t _ g _ => ⟨trivial, fun _ u _ g' _ =>
        ⟨⟨⟨h.1, h.2.2⟩, (hp.mono g).mono g', hbase⟩, fun c x _ _ hc _ => hc⟩⟩⟩
  | forOf binding subject body =>
      have hbase := hb.resolve_left id
      exact ⟨h.2.1, fun v t _ g _ => ⟨trivial, fun _ u _ g' _ =>
        ⟨⟨⟨h.1, h.2.2⟩, (hp.mono g).mono g', hbase⟩, fun c x _ _ hc _ => hc⟩⟩⟩
  | whileLoop test body =>
      exact ⟨⟨⟨h.1, trivial, h.2⟩, hp, hb.resolve_left id⟩, fun c t _ _ hc _ => hc⟩
  | «break» => exact fun hf => hf.elim
  | «continue» => exact fun hf => hf.elim
  | «return» value =>
      cases value with
      | none => exact fun _ => id
      | some e => exact ⟨h, fun _ _ _ _ _ _ => id⟩
  | empty => exact fun _ => id

/-! ### Jobs -/

theorem follows_invoke {d : Definition} {arguments : List Value} (hd : d.Formed) :
    w.contract.Follows (fun _ _ => True) (.ofJob (.invoke d env arguments)) s := by
  refine ⟨trivial, fun _ t hit _ _ => follows_ite (fun _ => follows_fail.mpr fun hf => by cases hf)
    fun _ => follows_bind.mpr ((follows_enter hit hd).imp fun inner u h => ?_)⟩
  refine ⟨⟨FormedBody.inLoop _ hd.body, h.1, h.2⟩, fun c x _ _ _ => ?_⟩
  cases c <;> trivial

theorem follows_execAll {body : List Stmt} (h : FormedBody True body)
    (hp : w.Places s.scopes env (hoistedNames body)) (hb : w.base ≤ ownScope env) :
    w.contract.Follows (fun c _ => FormedBody False body → ¬ c.Jumps)
      (.ofJob (.execAll body env)) s := by
  cases body with
  | nil => exact fun _ => id
  | cons first rest =>
      refine ⟨⟨h.1, hp.left, .inr hb⟩, fun c t _ g hc => ?_⟩
      cases c with
      | normal => exact ⟨⟨h.2, hp.right.mono g, hb⟩, fun c' u _ _ hc' hf => hc' hf.2⟩
      | _ => exact fun hf => hc hf.1

theorem follows_execBindings {kind : DeclKind} {bindings : List (String × Option Expr)}
    (h : FormedBindings kind bindings)
    (hp : w.Places s.scopes env (Stmt.declare kind bindings).hoisted) (hb : w.base ≤ ownScope env) :
    w.contract.Follows (fun _ _ => True) (.ofJob (.execBindings kind bindings env)) s := by
  rcases bindings with _ | ⟨⟨name, e⟩, rest⟩
  · trivial
  rw [hoisted_declare] at hp
  refine follows_bind.mpr ((follows_ofOption h.2.2.1).imp fun v t g => ?_)
  exact follows_bind.mpr ((follows_bindDeclared h.1 (hp.left.mono g) hb).imp fun _ u g' =>
    ⟨⟨h.2.2.2, (hp.right.mono g).mono g', hb⟩, fun _ _ _ _ _ => trivial⟩)

theorem follows_execLoop {test update : Option Expr} {body : Stmt}
    (h : FormedOption test ∧ FormedOption update ∧ body.Formed True)
    (hp : w.Places s.scopes env body.hoisted) (hb : w.base ≤ ownScope env) :
    w.contract.Follows (fun c _ => ¬ c.Jumps) (.ofJob (.execLoop test update body env)) s := by
  refine ⟨h.1, fun goesOn t _ g _ => follows_ite (fun _ => ?_) fun _ => id⟩
  refine ⟨⟨h.2.2, hp.mono g, .inr hb⟩, fun c u _ g' _ => follows_nextRound ?_⟩
  exact ⟨h.2.1, fun _ v _ g'' _ => ⟨⟨h, ((hp.mono g).mono g').mono g'', hb⟩, fun c x _ _ hc => hc⟩⟩

theorem follows_execEach {binding : LoopBinding} {items : List Value} {body : Stmt} (hi : w.Inv s)
    (h : isName binding.name = true ∧ body.Formed True)
    (hp : w.Places s.scopes env (loopHoisted binding ++ body.hoisted)) (hb : w.base ≤ ownScope env) :
    w.contract.Follows (fun c _ => ¬ c.Jumps) (.ofJob (.execEach binding items body env)) s := by
  cases items with
  | nil => exact id
  | cons item rest =>
      refine follows_bind.mpr ((w.steady.follows hi (follows_bindRound hi h.1 hp.left hb)).imp
        fun inner t h' => ?_)
      obtain ⟨-, g, stands, hvar, hbase⟩ := h'
      have places := hp.mono g
      have inside : w.Places t.scopes inner body.hoisted :=
        ⟨stands, by rw [hvar]; exact places.right.bound, by rw [hvar]; exact places.right.hoisted⟩
      refine ⟨⟨h.2, inside, .inr hbase⟩, fun c u _ g' _ => follows_nextRound ?_⟩
      exact ⟨⟨h, places.mono g', hb⟩, fun c x _ _ hc => hc⟩

/-- Every job keeps to the contract if its parts do. -/
theorem follows_ofJob {j : Job} (hi : w.Inv s) (h : w.Relies j s) :
    w.contract.Follows (fun a _ => Gives j a) (.ofJob j) s := by
  cases j with
  | eval e env => exact follows_ofExpr hi h
  | evalAll es env =>
      cases es with
      | nil => trivial
      | cons e rest => exact ⟨h.1, fun _ _ _ _ _ => ⟨h.2, fun _ _ _ _ _ => trivial⟩⟩
  | evalFields fields done env =>
      rcases fields with _ | ⟨⟨key, e⟩, rest⟩
      · trivial
      · exact ⟨h.1, fun _ _ _ _ _ => ⟨h.2, fun _ _ _ _ _ => trivial⟩⟩
  | evalPlace e env => exact follows_ofPlace h.1 h.2
  | evalCall callee arguments env => exact follows_ofCall h.1 h.2
  | callMethod described receiver name arguments => exact follows_ofMethod
  | visit f whole entries done =>
      rcases entries with _ | ⟨⟨v, key⟩, rest⟩
      · trivial
      · exact ⟨trivial, fun _ _ _ _ _ => ⟨trivial, fun _ _ _ _ _ => trivial⟩⟩
  | call f arguments =>
      refine ⟨trivial, fun seen t hit _ ht => ?_⟩
      obtain rfl : seen = t := ht
      cases f with
      | function r => exact follows_ofCallable hit
      | _ => exact follows_fail.mpr fun hf => by cases hf
  | invoke d env arguments => exact follows_invoke h
  | exec stmt env => exact follows_ofStmt hi h.1 h.2.1 h.2.2
  | execAll body env => exact follows_execAll h.1 h.2.1 h.2.2
  | execBindings kind bindings env => exact follows_execBindings h.1 h.2.1 h.2.2
  | execLoop test update body env => exact follows_execLoop h.1 h.2.1 h.2.2
  | evalTest test env => exact follows_bind.mpr ((follows_ofOption h).imp fun _ _ _ => trivial)
  | evalUpdate update env => exact follows_bind.mpr ((follows_ofOption h).imp fun _ _ _ => trivial)
  | execEach binding items body env => exact follows_execEach hi h.1 h.2.1 h.2.2

end

/-- **Runs of well-formed scripts keep to their contract.** -/
theorem sound (w : Horizon) : w.contract.Sound where
  toSteady := w.steady
  op _ _ _ _ hi ho _ hr := ⟨inv_of_run hi ho hr, (Op.effect hr).scopes.grows, yields_of_run hr⟩
  course _ _ hi h := follows_ofJob hi h

end Horizon

end Stencil.Script
