import Stencil.Proofs.Runs.Bindings
import Stencil.Proofs.Twin.Heap

/-!
# Twin — two runs and names

What two runs in linked stores do with names that are not hidden: they find, bind and assign the
same, and fail alike.

* `twin_lookUp`, `twin_assignName`, `twin_declare`, `twin_declareVar`: names.
* `twin_functionValue`, `twin_declareFunction`: functions, which are the same on both sides.
* `twin_enter`, `twin_bindRound`, `twin_bindDeclared`: what calls, loops and declarations bind.
-/

namespace Stencil.Script
namespace Link
open Discipline

variable {K : Link}

/-! ### Scopes -/

namespace SameScopes
variable {σ τ : Scopes}

theorem opened (h : K.SameScopes σ τ) : K.SameScopes σ.opened τ.opened where
  size := by rw [Scopes.size_opened, Scopes.size_opened, h.size]
  get? r n hn := by
    rw [Scopes.scope_opened, Scopes.scope_opened]
    exact h.get? r n hn

/-- Both sides may bind a name to the same value, and the hidden one to any. -/
theorem put (h : K.SameScopes σ τ) (r : Ref) {n : String} {v w : Variable}
    (hv : n ≠ K.hidden → K.SameVariable v w) : K.SameScopes (σ.put r n v) (τ.put r n w) where
  size := by rw [Scopes.size_put, Scopes.size_put, h.size]
  get? q word hword := by
    rw [Scopes.scope_put, Scopes.scope_put, h.size]
    split
    · rw [Scope.get?_put, Scope.get?_put]
      split
      · rename_i hn
        exact .some (hv (hn ▸ hword))
      · exact h.get? q word hword
    · exact h.get? q word hword

/-- A name is found in the same scope on both sides. -/
theorem find? (h : K.SameScopes σ τ) {n : String} (hn : n ≠ K.hidden) :
    ∀ env : Env, Option.Rel (fun p q : Ref × Variable => p.1 = q.1 ∧ K.SameVariable p.2 q.2)
      (σ.find? n env) (τ.find? n env)
  | [] => .none
  | frame :: outer => by
      have hf := h.get? frame.scope n hn
      rw [Scopes.find?_cons, Scopes.find?_cons]
      generalize (σ.scope frame.scope).get? n = v at hf
      generalize (τ.scope frame.scope).get? n = w at hf
      cases hf with
      | some hv => exact .some ⟨rfl, hv⟩
      | none => exact find? h hn outer

end SameScopes

variable {s s' : Store} {env : Env} {n : String}

theorem Linked.withScopes (l : K.Linked s s') {σ τ : Scopes} (h : K.SameScopes σ τ) :
    K.Linked (s.withScopes σ) (s'.withScopes τ) :=
  { l with scopes := h }

/-! ### Names -/

theorem twin_lookUp (l : K.Linked s s') (hn : n ≠ K.hidden) :
    K.TwinValues (lookUp env n) (lookUp env n) s s' := by
  have h := l.scopes.find? hn env
  unfold TwinValues Twin
  rw [lookUp_run, lookUp_run]
  generalize Scopes.find? s.scopes n env = p at h
  generalize Scopes.find? s'.scopes n env = q at h
  cases h with
  | some hv => exact .ok hv.2.1 l
  | none => exact .error _ _ _

theorem twin_typeOfName (l : K.Linked s s') (hn : n ≠ K.hidden) :
    K.TwinValues (typeOfName env n) (typeOfName env n) s s' := by
  have h := l.scopes.find? hn env
  unfold TwinValues Twin
  rw [typeOfName_run, typeOfName_run]
  generalize Scopes.find? s.scopes n env = p at h
  generalize Scopes.find? s'.scopes n env = q at h
  cases h with
  | some hv => exact .ok (same_string hv.2.1.typeName) l
  | none => exact .ok (.string _) l

theorem twin_assignName (l : K.Linked s s') (hn : n ≠ K.hidden) {v w : Value} (hv : K.Same v w) :
    K.TwinUnit (assignName env n v) (assignName env n w) s s' := by
  have h := l.scopes.find? hn env
  unfold TwinUnit Twin
  rw [assignName_run, assignName_run]
  generalize Scopes.find? s.scopes n env = p at h
  generalize Scopes.find? s'.scopes n env = q at h
  cases h with
  | none => exact .error _ _ _
  | @some p q hp =>
      obtain ⟨r, x⟩ := p
      obtain ⟨r', y⟩ := q
      obtain ⟨hr, hx⟩ := hp
      obtain rfl : r = r' := hr
      dsimp only
      rw [← hx.2]
      split
      · exact .ok trivial (l.withScopes (l.scopes.put r fun _ => ⟨hv, rfl⟩))
      · exact .error _ _ _

theorem twin_newScope (l : K.Linked s s') (ofFunction : Bool) (env : Env) :
    K.Twin Eq (newScope ofFunction env) (newScope ofFunction env) s s' := by
  unfold Twin
  rw [newScope_run, newScope_run]
  exact .ok (by rw [show Array.size s.scopes = Array.size s'.scopes from l.scopes.size])
    (l.withScopes l.scopes.opened)

theorem twin_define (l : K.Linked s s') {v w : Value} (hv : K.Same v w) (mutable : Bool) :
    K.TwinUnit (define env n v mutable) (define env n w mutable) s s' :=
  .ok trivial (l.withScopes (l.scopes.put _ fun _ => ⟨hv, rfl⟩))

theorem twin_declare (l : K.Linked s s') (hn : n ≠ K.hidden) {v w : Value} (hv : K.Same v w)
    (mutable : Bool) : K.TwinUnit (declare env n v mutable) (declare env n w mutable) s s' := by
  have h := l.scopes.get? (ownScope env) n hn
  unfold TwinUnit Twin
  rw [declare_run, declare_run]
  generalize (Scopes.scope s.scopes (ownScope env)).get? n = p at h
  generalize (Scopes.scope s'.scopes (ownScope env)).get? n = q at h
  cases h with
  | some _ => exact .error _ _ _
  | none => exact .ok trivial (l.withScopes (l.scopes.put _ fun _ => ⟨hv, rfl⟩))

theorem twin_declareVar (l : K.Linked s s') (hn : n ≠ K.hidden) :
    K.TwinUnit (declareVar env n) (declareVar env n) s s' := by
  have h := l.scopes.get? (varScope env) n hn
  unfold TwinUnit Twin
  rw [declareVar_run, declareVar_run]
  generalize (Scopes.scope s.scopes (varScope env)).get? n = p at h
  generalize (Scopes.scope s'.scopes (varScope env)).get? n = q at h
  cases h with
  | some _ => exact .ok trivial l
  | none => exact .ok trivial (l.withScopes (l.scopes.put _ fun _ => ⟨.undefined, rfl⟩))

/-! ### Functions -/

theorem twin_newFunction (l : K.Linked s s') {d : Definition} (h : K.Unmentioned d.mentions) :
    K.TwinValues (newFunction (.closure d env)) (newFunction (.closure d env)) s s' := by
  have hsize : s.functions.size = s'.functions.size := by rw [l.functions]
  refine .ok (hsize ▸ .function _) { l with functions := ?_, closures := ?_ }
  · exact congrArg (·.push (Callable.closure d env)) l.functions
  · intro d' env' hm
    rcases Array.mem_push.mp hm with hm | hm
    · exact l.closures d' env' hm
    · cases hm
      exact h

theorem twin_functionValue (l : K.Linked s s') {d : Definition} (h : K.Unmentioned d.mentions) :
    K.TwinValues (functionValue d env) (functionValue d env) s s' := by
  cases e : d.name with
  | none =>
      rw [functionValue_of_unnamed e]
      exact twin_newFunction l h
  | some own =>
      rw [functionValue_of_named e]
      refine (twin_newScope l false env).bind fun inner inner' t t' hi l₁ => ?_
      subst hi
      refine (twin_newFunction l₁ h).bind fun f g u u' hf l₂ => ?_
      exact (twin_define l₂ hf false).bind fun _ _ v v' _ l₃ => twin_pure l₃ hf

theorem twin_declareFunction (l : K.Linked s s') {d : Definition}
    (h : K.Unmentioned (.named (d.name.getD "") :: d.mentions)) :
    K.TwinUnit (declareFunction d env) (declareFunction d env) s s' := by
  have hn : d.name.getD "" ≠ K.hidden := fun e => h _ List.mem_cons_self (congrArg some e)
  refine (twin_newFunction l fun m hm => h m (List.mem_cons_of_mem _ hm)).bind
    fun f g t t' hf l₁ => ?_
  exact (twin_declareVar l₁ hn).bind fun _ _ u u' _ l₂ => twin_assignName l₂ hn hf

theorem twin_declareFunctions : ∀ {body : List Stmt} {s s' : Store}, K.Linked s s' →
    K.Unmentioned (mentionsBody body) →
    K.TwinUnit (declareFunctions env body) (declareFunctions env body) s s'
  | [], _, _, l, _ => twin_pure l trivial
  | first :: rest, s, s', l, h => by
      rw [mentionsBody, unmentioned_append] at h
      cases first with
      | function d =>
          exact (twin_declareFunction l h.1).bind fun _ _ t t' _ l' => twin_declareFunctions l' h.2
      | _ => exact (twin_declareFunctions l h.2 : K.TwinUnit (declareFunctions env rest) _ s s')

/-! ### Calls -/

theorem twin_bindParameters : ∀ {names : List String} {s s' : Store} {arguments arguments' :
    List Value}, K.Linked s s' → K.SameValues arguments arguments' →
    K.Twin K.SameValues (bindParameters env names arguments) (bindParameters env names arguments')
      s s'
  | [], _, _, _, _, l, h => twin_pure l h
  | _ :: _, _, _, _, _, l, h =>
      (twin_define l h.headD true).bind fun _ _ _ _ _ l' => twin_bindParameters l' h.tail

theorem twin_bindRest (l : K.Linked s s') (name : Option String) {left left' : List Value}
    (h : K.SameValues left left') :
    K.TwinUnit (bindRest env name left) (bindRest env name left') s s' := by
  cases name with
  | none => exact twin_pure l trivial
  | some name =>
      exact (twin_newArray l h).bind fun v w t t' hv l' => twin_define l' hv true

theorem twin_declareVars : ∀ {names : List String} {s s' : Store}, K.Linked s s' →
    (∀ n ∈ names, n ≠ K.hidden) →
    K.TwinUnit (declareVars env names) (declareVars env names) s s'
  | [], _, _, l, _ => twin_pure l trivial
  | n :: _, _, _, l, h =>
      (twin_declareVar l (h n List.mem_cons_self)).bind fun _ _ _ _ _ l' =>
        twin_declareVars l' fun m hm => h m (List.mem_cons_of_mem _ hm)

theorem Unmentioned.hoisted {body : List Stmt} (h : K.Unmentioned (mentionsBody body)) :
    ∀ n ∈ hoistedNames body, n ≠ K.hidden := by
  intro n hn he
  obtain ⟨m, hm, hh⟩ := isHoisted_of_mem_hoistedNames body hn
  have hw := Mention.writes_of_isHoisted hh
  refine h m hm ?_
  rw [← he]
  cases m with
  | read _ => cases hw
  | _ => exact hw

theorem twin_hoist (l : K.Linked s s') {body : List Stmt} (h : K.Unmentioned (mentionsBody body)) :
    K.TwinUnit (hoist env body) (hoist env body) s s' :=
  (twin_declareVars l h.hoisted).bind fun _ _ _ _ _ l' => twin_declareFunctions l' h

/-- **Calls** bind the same on both sides. -/
theorem twin_enter (l : K.Linked s s') {d : Definition} (h : K.Unmentioned d.mentions)
    {arguments arguments' : List Value} (ha : K.SameValues arguments arguments') :
    K.Twin Eq (enter d env arguments) (enter d env arguments') s s' := by
  have hbody : K.Unmentioned (mentionsBody d.body) :=
    h.of_subset fun _ => mem_mentions_of_mem_mentionsBody
  rw [enter_eq, enter_eq]
  refine (twin_newScope l true env).bind fun inner inner' t t' hi l₁ => ?_
  subst hi
  refine (twin_bindParameters l₁ ha).bind fun left left' u u' hl l₂ => ?_
  refine (twin_bindRest l₂ d.rest hl).bind fun _ _ v v' _ l₃ => ?_
  exact (twin_hoist l₃ hbody).bind fun _ _ w w' _ l₄ => twin_pure l₄ rfl

/-! ### Declarations and loops -/

/-- Values that are both absent, or the same. -/
abbrev SameOption (K : Link) : Option Value → Option Value → Prop :=
  Option.Rel K.Same

theorem SameOption.getD {v w : Option Value} (h : K.SameOption v w) :
    K.Same (v.getD .undefined) (w.getD .undefined) := by
  cases h with
  | some h => exact h
  | none => exact .undefined

theorem twin_bindDeclared (l : K.Linked s s') (hn : n ≠ K.hidden) (kind : DeclKind)
    {value value' : Option Value} (h : K.SameOption value value') :
    K.TwinUnit (bindDeclared kind n value env) (bindDeclared kind n value' env) s s' := by
  cases kind with
  | var =>
      refine (twin_declareVar l hn).bind fun _ _ t t' _ l' => ?_
      cases h with
      | some h => exact twin_assignName l' hn h
      | none => exact twin_pure l' trivial
  | «let» => exact twin_declare l hn h.getD true
  | const => exact twin_declare l hn h.getD false

theorem twin_bindRound (l : K.Linked s s') {binding : LoopBinding}
    (hb : K.Unmentioned binding.mentions) {item item' : Value} (h : K.Same item item') :
    K.Twin Eq (bindRound binding item env) (bindRound binding item' env) s s' := by
  obtain ⟨kind, n⟩ := binding
  have own (mutable : Bool) : K.Twin Eq
      (newScope false env >>= fun inner => define inner n item mutable >>= fun _ => pure inner)
      (newScope false env >>= fun inner => define inner n item' mutable >>= fun _ => pure inner)
      s s' := by
    refine (twin_newScope l false env).bind fun inner inner' t t' hi l₁ => ?_
    subst hi
    exact (twin_define l₁ h mutable).bind fun _ _ u u' _ l₂ => twin_pure l₂ rfl
  have hn (m : Mention) (hm : m ∈ LoopBinding.mentions ⟨kind, n⟩) (he : m.name? = some n) :
      n ≠ K.hidden := fun e => hb m hm (he.trans (congrArg some e))
  cases kind with
  | none =>
      exact (twin_assignName l (hn _ (List.mem_singleton_self _) rfl) h).bind
        fun _ _ t t' _ l' => twin_pure l' rfl
  | some kind =>
      cases kind with
      | var =>
          have hn := hn _ (List.mem_singleton_self _) rfl
          refine (twin_declareVar l hn).bind fun _ _ t t' _ l₁ => ?_
          exact (twin_assignName l₁ hn h).bind fun _ _ u u' _ l₂ => twin_pure l₂ rfl
      | «let» => exact own true
      | const => exact own false

end Link
end Stencil.Script
