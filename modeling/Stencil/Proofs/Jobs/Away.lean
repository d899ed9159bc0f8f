import Stencil.Proofs.Jobs.Contract
import Stencil.Proofs.Jobs.Fallbacks
import Stencil.Proofs.Jobs.Paths

/-!
# Jobs — places that do not see a scope

What is done at a place can reach only the scopes of the chain there.  A course hands its place on,
adds new scopes to it, or calls a function, which goes on at the place where it was made.  So a job
that does not see a scope has parts that do not see it either, other than calls of functions that do.

* `Course.away_ofJob`: away from a scope, all is done away from it, if functions that see it are not
  called.
* `Definition.not_sees`: nothing sees a scope that is yet to be opened.
-/

namespace Stencil.Script

/-- Whether a scope is among those at a place. -/
def Sees (r : Ref) (env : Env) : Prop :=
  ∃ frame ∈ env, frame.scope = r

section
variable {r : Ref} {env : Env}

@[simp] theorem not_sees_nil : ¬ Sees r [] :=
  fun h => by obtain ⟨_, hm, _⟩ := h; cases hm

@[simp] theorem sees_cons {frame : Frame} : Sees r (frame :: env) ↔ frame.scope = r ∨ Sees r env := by
  simp [Sees]

/-- Names are bound in a scope of the place, or in that of the language. -/
theorem ownScope_ne (h : ¬ Sees r env) (hr : r ≠ 0) : ownScope env ≠ r := by
  cases env with
  | nil => exact hr.symm
  | cons frame outer => exact fun hf => h (sees_cons.mpr (.inl hf))

end

/-- The place at which an operation is done, or a function is made. -/
@[simp] def Op.env : Op → Env
  | .newFunction (.closure _ env) => env
  | .newScope _ env | .define env _ _ _ | .declare env _ _ _ | .declareVar env _ | .lookUp env _
  | .typeOfName env _ | .assign env _ _ => env
  | _ => []

/-- The place at which a job is done, or the function was made that it calls. -/
@[simp] def Job.env : Job → Env
  | .eval _ env | .evalAll _ env | .evalFields _ _ env | .evalPlace _ env | .evalCall _ _ env
  | .invoke _ env _ | .exec _ env | .execAll _ env | .execBindings _ _ env | .execLoop _ _ _ env
  | .evalTest _ env | .evalUpdate _ env | .execEach _ _ _ env => env
  | .callMethod _ _ _ _ | .visit _ _ _ _ | .call _ _ => []

/-- The place of an entry. -/
@[simp] def Entry.env : Entry → Env
  | .op o _ => o.env
  | .job _ j _ => j.env

/-- What assigns to a variable of a scope sees the scope. -/
theorem Entry.Assigns.sees {r : Ref} {name : String} {e : Entry} (h : e.Assigns r name) :
    Sees r e.env := by
  cases e with
  | job => exact h.elim
  | op o s =>
      cases o with
      | assign env word value =>
          obtain ⟨-, v, hfind, -⟩ := h
          rw [Store.find?_eq] at hfind
          exact Scopes.find?_mem hfind
      | _ => exact h.elim

/-! ### Courses -/

section
variable (r : Ref) (calls : Env → Prop)

/-- Whether a job is away from a scope, or calls a function that may be called. -/
@[simp] def Job.Away : Job → Prop
  | .invoke _ env _ => calls env
  | j => ¬ Sees r j.env

/-- What is found by an operation: functions that may be called, and new scopes that are not the one
to be away from. -/
@[simp] def Op.Finds : (o : Op) → o.Result → Prop
  | .look, s => ∀ d env, .closure d env ∈ s.functions → calls env
  | .newScope _ _, env => ¬ Sees r env
  | _, _ => True

/-- **Courses away from a scope**, which end as they should. -/
@[simp] def Course.Away {α : Type} (Q : α → Prop) : Course α → Prop
  | ends a => Q a
  | step o next => ¬ Sees r o.env ∧ ∀ a, o.Finds r calls a → (next a).Away Q
  | part j next => j.Away r calls ∧ ∀ a, (next a).Away Q
  | inCall _ env next => ¬ Sees r env ∧ ∀ c, (next c).Away Q

end

namespace Course
variable {α β : Type} {r : Ref} {calls : Env → Prop} {env : Env}

@[simp] theorem away_pure {Q : α → Prop} {a : α} : (pure a : Course α).Away r calls Q ↔ Q a :=
  Iff.rfl

@[simp] theorem away_bind {p : Course α} {f : α → Course β} {Q : β → Prop} :
    (p >>= f).Away r calls Q ↔ p.Away r calls fun a => (f a).Away r calls Q := by
  induction p with
  | ends a => rfl
  | step o next ih => exact and_congr_right fun _ => forall₂_congr fun a _ => ih a
  | part j next ih => exact and_congr_right fun _ => forall_congr' fun a => ih a
  | inCall stmts env next ih => exact and_congr_right fun _ => forall_congr' fun a => ih a

theorem Away.imp {p : Course α} {Q Q' : α → Prop} (h : p.Away r calls Q) (hQ : ∀ a, Q a → Q' a) :
    p.Away r calls Q' := by
  induction p with
  | ends a => exact hQ a h
  | step o next ih => exact ⟨h.1, fun a ha => ih a (h.2 a ha)⟩
  | part j next ih => exact ⟨h.1, fun a => ih a (h.2 a)⟩
  | inCall stmts env next ih => exact ⟨h.1, fun a => ih a (h.2 a)⟩

/-- One course after another, whose result does not matter. -/
theorem Away.next {p : Course α} {f : α → Course β} {Q : β → Prop}
    (hp : p.Away r calls fun _ => True) (hf : ∀ a, (f a).Away r calls Q) :
    (p >>= f).Away r calls Q :=
  away_bind.mpr (hp.imp fun a _ => hf a)

@[simp] theorem away_ite {c : Prop} [Decidable c] {p q : Course α} {Q : α → Prop} :
    (if c then p else q).Away r calls Q ↔ if c then p.Away r calls Q else q.Away r calls Q :=
  iff_of_eq (apply_ite (Away r calls Q) c p q)

@[simp] theorem away_fail {f : Fault} {Q : α → Prop} : (fail f : Course α).Away r calls Q :=
  ⟨not_sees_nil, fun e => e.elim⟩

/-! ### Names -/

theorem away_functionValue {d : Definition} (h : ¬ Sees r env) :
    (functionValue d env).Away r calls fun _ => True := by
  unfold functionValue
  split <;> simp [perform, h]

theorem away_declareFunction {d : Definition} (h : ¬ Sees r env) :
    (declareFunction d env).Away r calls fun _ => True := by
  simp [declareFunction, perform, h]

theorem away_declareFunctions {body : List Stmt} (h : ¬ Sees r env) :
    (declareFunctions env body).Away r calls fun _ => True := by
  induction body with
  | nil => trivial
  | cons first rest ih =>
      cases first with
      | function d => exact (away_declareFunction h).next fun _ => ih
      | _ => exact ih

theorem away_bindParameters {names : List String} {arguments : List Value} (h : ¬ Sees r env) :
    (bindParameters env names arguments).Away r calls fun _ => True := by
  induction names generalizing arguments with
  | nil => trivial
  | cons name names ih => exact ⟨h, fun _ _ => ih⟩

theorem away_bindRest {name : Option String} {left : List Value} (h : ¬ Sees r env) :
    (bindRest env name left).Away r calls fun _ => True := by
  cases name <;> simp [bindRest, perform, h]

theorem away_declareVars {names : List String} (h : ¬ Sees r env) :
    (declareVars env names).Away r calls fun _ => True := by
  induction names with
  | nil => trivial
  | cons name names ih => exact ⟨h, fun _ _ => ih⟩

/-- A call that is away from a scope opens one that is another. -/
theorem away_enter {d : Definition} {arguments : List Value} (h : ¬ Sees r env) :
    (enter d env arguments).Away r calls fun inner => ¬ Sees r inner := by
  refine ⟨h, fun inner hinner => ?_⟩
  exact (away_bindParameters hinner).next fun _ => (away_bindRest hinner).next fun _ =>
    (away_declareVars hinner).next fun _ => (away_declareFunctions hinner).next fun _ => hinner

theorem away_bindRound {binding : LoopBinding} {item : Value} (h : ¬ Sees r env) :
    (bindRound binding item env).Away r calls fun inner => ¬ Sees r inner := by
  unfold bindRound
  split <;> simp [ownRound, perform, h]

theorem away_bindDeclared {kind : DeclKind} {name : String} {value : Option Value} (h : ¬ Sees r env) :
    (bindDeclared kind name value env).Away r calls fun _ => True := by
  cases kind <;> cases value <;> simp [bindDeclared, perform, h]

theorem away_readPlace {place : Place} (h : ¬ Sees r env) :
    (readPlace env place).Away r calls fun _ => True := by
  cases place <;> simp [readPlace, perform, h]

theorem away_writePlace {place : Place} {value : Value} (h : ¬ Sees r env) :
    (writePlace env value place).Away r calls fun _ => True := by
  cases place <;> simp [writePlace, perform, h]

/-! ### Jobs -/

theorem away_ofExpr {e : Expr} (h : ¬ Sees r env) : (ofExpr env e).Away r calls fun _ => True := by
  cases e with
  | function d => exact away_functionValue h
  | update increment before target =>
      exact ⟨h, fun place => (away_readPlace h).next fun v => ⟨not_sees_nil, fun s _ =>
        (away_writePlace h).next fun _ => trivial⟩⟩
  | assign op target value =>
      cases op with
      | none => exact ⟨h, fun place => ⟨h, fun v => (away_writePlace h).next fun _ => trivial⟩⟩
      | some op =>
          exact ⟨h, fun place => (away_readPlace h).next fun current => ⟨h, fun operand =>
            ⟨not_sees_nil, fun v _ => (away_writePlace h).next fun _ => trivial⟩⟩⟩
  | unary op operand =>
      unfold ofExpr
      split <;> simp_all [perform, carryOut]
  | _ => simp [ofExpr, look, perform, carryOut, h]

theorem away_ofPlace {e : Expr} (h : ¬ Sees r env) : (ofPlace env e).Away r calls fun _ => True := by
  cases e <;> simp [ofPlace, look, perform, carryOut, h]

theorem away_callOrFail {f : Value} {arguments : List Value} {described : String} :
    (callOrFail f arguments described).Away r calls fun _ => True := by
  simp [callOrFail, carryOut]

theorem away_ofCall {arguments : List Expr} {callee : Expr} (h : ¬ Sees r env) :
    (ofCall arguments env callee).Away r calls fun _ => True := by
  cases callee <;> simp [ofCall, look, away_callOrFail, perform, carryOut, h]

theorem away_ofMethod {described name : String} {receiver : Value} {arguments : List Value} :
    (ofMethod described receiver name arguments).Away r calls fun _ => True := by
  unfold ofMethod
  split <;> simp [look, away_callOrFail, perform, carryOut]

/-- Only the call of a function goes on at another place. -/
theorem away_ofCallable {arguments : List Value} {s : Store} {f : Ref}
    (h : ∀ d env, .closure d env ∈ s.functions → calls env) :
    (ofCallable arguments s (s.callable f)).Away r calls fun _ => True := by
  rcases hc : s.callable f with ⟨d, env⟩ | m | _ | _
  · exact ⟨h d env (Store.mem_functions hc), fun _ => trivial⟩
  all_goals simp [ofCallable, perform, carryOut]

theorem away_nextRound {again : Course Completion} {c : Completion}
    (h : again.Away r calls fun _ => True) : (nextRound again c).Away r calls fun _ => True := by
  cases c with
  | normal | «continue» => exact h
  | «break» | «return» => trivial

theorem away_ofOption {e : Option Expr} (h : ¬ Sees r env) :
    (ofOption env e).Away r calls fun _ => True := by
  cases e <;> simp [ofOption, carryOut, h]

theorem away_ofStmt {stmt : Stmt} (h : ¬ Sees r env) :
    (ofStmt env stmt).Away r calls fun _ => True := by
  cases stmt with
  | function d => exact (away_declareFunction h).next fun _ => trivial
  | branch test yes no => cases no <;> simp [ofStmt, carryOut, h]
  | loop init test update body => cases init <;> simp +contextual [ofStmt, perform, carryOut, h]
  | «return» value => cases value <;> simp [ofStmt, carryOut, h]
  | _ => simp [ofStmt, look, perform, carryOut, h]

/-- **Away from a scope, all is done away from it**, if functions that see it are not called. -/
theorem away_ofJob {j : Job} (h : ¬ Sees r j.env) : (ofJob j).Away r calls fun _ => True := by
  cases j with
  | eval e env => exact away_ofExpr h
  | evalAll es env => cases es <;> simp_all [ofJob, carryOut]
  | evalFields fields done env => cases fields <;> simp_all [ofJob, carryOut]
  | evalPlace e env => exact away_ofPlace h
  | evalCall callee arguments env => exact away_ofCall h
  | callMethod described receiver name arguments => exact away_ofMethod
  | visit f whole entries done => cases entries <;> simp [ofJob, carryOut]
  | call f arguments =>
      refine ⟨not_sees_nil, fun s hs => ?_⟩
      cases f with
      | function f => exact away_ofCallable hs
      | _ => exact away_fail
  | invoke d env arguments =>
      refine ⟨not_sees_nil, fun s _ => away_ite.mpr ?_⟩
      split
      · exact away_fail
      · exact away_bind.mpr ((away_enter h).imp fun inner hinner =>
          ⟨hinner, fun c => by cases c <;> trivial⟩)
  | exec stmt env => exact away_ofStmt h
  | execAll body env =>
      cases body with
      | nil => trivial
      | cons first rest =>
          refine ⟨h, fun c => ?_⟩
          cases c with
          | normal => exact ⟨h, fun _ => trivial⟩
          | _ => trivial
  | execBindings kind bindings env =>
      cases bindings with
      | nil => trivial
      | cons first rest =>
          exact (away_ofOption h).next fun v => (away_bindDeclared h).next fun _ => ⟨h, fun _ => trivial⟩
  | execLoop test update body env =>
      refine ⟨h, fun goesOn => away_ite.mpr ?_⟩
      split
      · exact ⟨h, fun c => away_nextRound ⟨h, fun _ => ⟨h, fun _ => trivial⟩⟩⟩
      · trivial
  | evalTest test env => exact (away_ofOption h).next fun _ => trivial
  | evalUpdate update env => exact (away_ofOption h).next fun _ => trivial
  | execEach binding items body env =>
      cases items with
      | nil => trivial
      | cons item rest =>
          exact away_bind.mpr ((away_bindRound h).imp fun inner hinner =>
            ⟨hinner, fun c => away_nextRound ⟨h, fun _ => trivial⟩⟩)

end Course

/-! ### Scopes yet to be opened -/

/-- The contract that is kept until a scope is opened: nothing sees it. -/
def unopened (r : Ref) : Contract where
  inv s := s.scopes.size ≤ r ∧ ∀ d env, .closure d env ∈ s.functions → ¬ Sees r env
  keeps _ _ := True
  pre j _ := ¬ Sees r j.env
  opPre o _ := ¬ Sees r o.env
  post _ _ _ _ := True
  opPost o _ a _ := o.Finds r (¬ Sees r ·) a
  trusts o s := (storeOf (o.run s)).scopes.size ≤ r

section
variable {r : Ref}

theorem Job.not_sees_of_away {j : Job} (h : j.Away r (¬ Sees r ·)) : ¬ Sees r j.env := by
  cases j <;> exact h

theorem Course.Away.follows {α : Type} {p : Course α} {Q : α → Prop}
    (h : p.Away r (¬ Sees r ·) Q) (s : Store) : (unopened r).Follows (fun a _ => Q a) p s := by
  induction p generalizing s with
  | ends a => exact h
  | step o next ih => exact ⟨h.1, fun a t _ _ hf => ih a (h.2 a hf) t⟩
  | part j next ih => exact ⟨Job.not_sees_of_away h.1, fun a t _ _ _ => ih a (h.2 a) t⟩
  | inCall stmts env next ih => exact ⟨h.1, fun c t _ _ _ => ih c (h.2 c) t.shallower⟩

/-- What an operation finds that does not open the scope. -/
theorem Op.finds {o : Op} {calls : Env → Prop} {s t : Store} {a : o.Result} (hr : o.run s = .ok a t)
    (ho : ¬ Sees r o.env) (hs : s.scopes.size ≤ r → t.scopes.size ≤ r)
    (hc : ∀ d env, .closure d env ∈ s.functions → calls env) : o.Finds r calls a := by
  cases o with
  | look => cases hr; exact hc
  | newScope b env =>
      cases hr
      refine fun h => (sees_cons.mp h).elim (fun heq => ?_) ho
      have hsize : s.scopes.size + 1 ≤ r := by simpa using hs (Nat.le_of_eq heq)
      exact absurd heq (Nat.ne_of_lt hsize)
  | _ => trivial

/-- **Until a scope is opened, nothing sees it.** -/
theorem unopened_sound (r : Ref) : (unopened r).Sound where
  refl _ := trivial
  trans _ _ _ _ _ := trivial
  deeper _ h := ⟨h, trivial⟩
  shallower _ h := ⟨h, trivial⟩
  op o s a t hi ho ht hr := by
    have hsize : t.scopes.size ≤ r := by
      have htrust : (storeOf (o.run s)).scopes.size ≤ r := ht
      rwa [hr] at htrust
    refine ⟨⟨hsize, fun d env hm => ?_⟩, trivial, Op.finds hr ho (fun _ => hsize) hi.2⟩
    rcases (Op.effect hr).functions _ hm with hm | rfl
    · exact hi.2 d env hm
    · exact ho
  course j s _ h := (Course.away_ofJob h).follows s

/-- **In a call from outside, nothing sees a scope that is yet to be opened.** -/
theorem Definition.not_sees {d : Definition} {steps : Nat} {data : Json.Document} {e : Entry}
    (he : e ∈ d.log steps data) (h : e.before.scopes.size ≤ r) : ¬ Sees r e.env := by
  obtain ⟨v, s, himport, he⟩ := mem_log he
  obtain ⟨hscopes, hfunctions, -⟩ := importDocument_initial himport
  have path := Job.leads steps (.invoke d globalEnv [v, helper]) s
  have hsize : s.scopes.size ≤ r := Nat.le_trans (path.grows_before he).size h
  have inv : (unopened r).inv s :=
    ⟨hsize, fun d env hm => absurd (hfunctions ▸ hm) no_closure_initial⟩
  have pre : (unopened r).pre (.invoke d globalEnv [v, helper]) s := by
    rw [hscopes] at hsize
    simpa [unopened, globalEnv] using (Nat.ne_of_lt hsize)
  obtain ⟨front, back, hlog⟩ := List.append_of_mem he
  have lasting := (unopened_sound r).log (n := steps) inv pre
  rw [hlog] at lasting path
  have holds := lasting.of_append fun x hx => ?_
  · cases e <;> exact holds.2
  · cases x with
    | job => trivial
    | op o z => exact Nat.le_trans (path.front.grows_passed hx).size h

end

end Stencil.Script
