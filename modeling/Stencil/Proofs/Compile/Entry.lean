import Stencil.Proofs.Compile.Prelude
import Stencil.Proofs.Runs.Calls
import Stencil.Proofs.Sheets.Values

/-!
# Compile — from the call to the script

What a template's function does before the statements that are made of the template: it gives the
parameter an empty object where it is falsy, binds members of it, and declares the output, the value
written last and the function that writes.

* `settles_default`, `settles_members`, `settles_prelude`: these statements as runs.
-/

namespace Stencil
namespace Script
open Template

section
variable {c : Scope} {s t : Store} {p : String} {v : Value}

/-- `p || {}` -/
theorem value_orEmpty (ρ : Valuation) (p : String) :
    (Expr.logical .or (.name p) (.object [])).value ρ = dataObject (ρ p) := by
  rw [dataObject]
  show (if LogicalOp.keepsLeft .or (ρ p) then pure (ρ p) else newObject []) = _
  cases h : (ρ p).truthy <;> rw [LogicalOp.keepsLeft, h]

theorem onData_dataObject {v : Value} (hv : v.Given) : OnData (dataObject v) Value.Given := by
  rw [dataObject]
  split
  · exact .pure hv
  · exact onData_newObject fun _ h => absurd h List.not_mem_nil

/-- `p = p || {};` as a run. -/
theorem settles_default (g : s.Given) (hs : s.scopes = callScopes c)
    (h : c.get? p = some ⟨v, true⟩) (hv : v.Given) {base : Value}
    (hbase : dataObject v s = .ok base t) :
    Settles (fun n => exec n (defaultStatement p) callEnv) s
      (.ok .normal (t.withScopes (callScopes (c.put p ⟨base, true⟩)))) := by
  have names : Names (fun _ => v) [p] callEnv s := by
    refine ⟨g, fun word hw => ?_⟩
    rw [List.mem_singleton.mp hw, hs]
    exact ⟨_, _, find?_callScopes h⟩
  have value := Expr.settles_value (ρ := fun _ => v) (e := .logical .or (.name p) (.object []))
    (fun _ => hv) ⟨trivial, trivial⟩ names
  have hscopes := (onData_dataObject hv).scopes g hbase
  rw [value_orEmpty, hbase] at value
  have assigned := settles_assign value (assign_call (hscopes.trans hs) h base)
  exact .succ (fun _ => by rw [defaultStatement, exec])
    (assigned.bind_ok (.const (pure Completion.normal) _))

/-- The member that a name is bound to. -/
theorem getProperty_members {base : Value} (hb : base.truthy = true) (s : Store) (name : String) :
    getProperty base name s = .ok (s.members base name) s := by
  cases base with
  | undefined | null => cases hb
  | _ => rfl

theorem members_withScopes (s : Store) (σ : Scopes) (base : Value) :
    (s.withScopes σ).members base = s.members base := by
  funext name
  cases base <;> rfl

/-- The variables of a call after names are bound to members of a value. -/
def Scope.membered (c : Scope) (ρ : Valuation) : List String → Scope
  | [] => c
  | name :: names => Scope.membered (c.put name ⟨ρ name, true⟩) ρ names

theorem Scope.get?_membered (ρ : Valuation) : ∀ (names : List String) (c : Scope) (word : String),
    (c.membered ρ names).get? word =
      if word ∈ names then some ⟨ρ word, true⟩ else c.get? word
  | [], c, word => by simp [Scope.membered]
  | name :: names, c, word => by
      rw [Scope.membered, Scope.get?_membered ρ names, Scope.get?_put]
      by_cases hw : word = name
      · subst hw
        simp
      · simp [hw]

/-- Bindings of members as runs. -/
theorem settles_memberBindings {base : Value} (hb : base.truthy = true) :
    ∀ (names : List String) {c : Scope} {s : Store}, s.scopes = callScopes c →
      c.get? p = some ⟨base, true⟩ → (∀ name ∈ names, name ≠ p ∧ (∃ w, c.get? name = some ⟨w, true⟩)) →
      Settles (fun n => execBindings n .var (names.map (memberBinding p)) callEnv) s
        (.ok () (s.withScopes (callScopes (c.membered (s.members base) names))))
  | [], c, s, hs, _, _ => by
      rw [Scope.membered, ← hs]
      exact settles_noBinding
  | name :: names, c, s, hs, hp, hn => by
      obtain ⟨hne, w, hw⟩ := hn name List.mem_cons_self
      have value : Settles (fun n => eval n (.member (.name p) name) callEnv) s
          (.ok (s.members base name) s) := by
        refine .succ (fun _ => by rw [eval]) ((settles_name (lookUp_call hs hp)).bind_ok ?_)
        exact .of_run (getProperty_members hb s name)
      have others := settles_memberBindings hb names
        (c := c.put name ⟨s.members base name, true⟩)
        (s := s.withScopes (callScopes (c.put name ⟨s.members base name, true⟩))) rfl
        (by rw [Scope.get?_put_of_ne hne.symm, hp]) fun other hm => ?_
      · rw [members_withScopes] at others
        exact settles_binding value (bindDeclared_call hs hw _) others
      · obtain ⟨hne', w', hw'⟩ := hn other (List.mem_cons_of_mem _ hm)
        refine ⟨hne', ?_⟩
        rw [Scope.get?_put]
        split
        · exact ⟨_, rfl⟩
        · exact ⟨w', hw'⟩

/-- The statements that bind members, as runs. -/
theorem settles_bindings {base : Value} (hb : base.truthy = true) {names : List String}
    (g : s.Given) (hs : s.scopes = callScopes c) (hp : c.get? p = some ⟨v, true⟩) (hv : v.Given)
    (hbase : dataObject v s = .ok base t)
    (hn : ∀ name ∈ names, name ≠ p ∧ (∃ w, c.get? name = some ⟨w, true⟩)) {rest : List Stmt}
    {r : Outcome Completion}
    (hrest : Settles (fun n => execAll n rest callEnv)
      (t.withScopes (callScopes ((c.put p ⟨base, true⟩).membered (t.members base) names))) r) :
    Settles (fun n => execAll n (bindingStatements p names ++ rest) callEnv) s r := by
  refine settles_cons (settles_default g hs hp hv hbase) ?_
  cases names with
  | nil => exact hrest
  | cons name names =>
      have bound := settles_memberBindings hb (p := p) (name :: names)
        (c := c.put p ⟨base, true⟩) (s := t.withScopes (callScopes (c.put p ⟨base, true⟩))) rfl
        (Scope.get?_put_self _ _ _) fun other hm => ?_
      · rw [members_withScopes] at bound
        exact settles_cons (settles_declare bound) hrest
      · obtain ⟨hne, w, hw⟩ := hn other hm
        exact ⟨hne, w, by rw [Scope.get?_put_of_ne hne, hw]⟩

/-- A store with one more function. -/
def Store.withFunction (s : Store) (f : Callable) : Store :=
  { s with functions := s.functions.push f }

theorem Store.Given.withFunction (g : s.Given) (h : nativeFunctions.length ≤ s.functions.size)
    (f : Callable) : (s.withFunction f).Given where
  items := g.items
  fields := g.fields
  helper := g.helper
  natives r hr := by
    rw [← g.natives r hr]
    show (s.functions.push f).getD r default = s.functions.getD r default
    rw [Array.getD_eq_getD_getElem?, Array.getD_eq_getD_getElem?, Array.getElem?_push,
      if_neg (by omega)]

/-- The declaration that comes first, as a run. -/
theorem settles_prelude (hs : s.scopes = callScopes c)
    (hn : ∀ name ∈ preludeNames, ∃ w, c.get? name = some ⟨w, true⟩) :
    Settles (fun n => exec n preludeStatement callEnv) s
      (.ok .normal ((s.withFunction (.closure writer callEnv)).withScopes
        (callScopes ((c.put "__p" ⟨.string "", true⟩).put "print"
          ⟨.function s.functions.size, true⟩)))) := by
  obtain ⟨last, hlast⟩ := hn "__t" (by decide)
  obtain ⟨output, houtput⟩ := hn "__p" (by decide)
  obtain ⟨print, hprint⟩ := hn "print" (by decide)
  have first : bindDeclared .var "__t" none callEnv s = .ok () s := by
    rw [bindDeclared, run_bind, declareVar_call hs, hlast]
    rfl
  have second := bindDeclared_call hs houtput (.string "")
  generalize hc : c.put "__p" ⟨.string "", true⟩ = c' at second ⊢
  have hprint' : c'.get? "print" = some ⟨print, true⟩ := by
    rw [← hc, Scope.get?_put_of_ne (by decide), hprint]
  have third := bindDeclared_call (c := c') (s := (s.withFunction (.closure writer callEnv)).withScopes
    (callScopes c')) rfl hprint' (.function s.functions.size)
  have function : Settles (fun n => eval n (.function writer) callEnv) (s.withScopes (callScopes c'))
      (.ok (.function s.functions.size)
        ((s.withFunction (.closure writer callEnv)).withScopes (callScopes c'))) :=
    .succ (m := fun _ => functionValue writer callEnv) (fun _ => by rw [eval]) (.of_run rfl)
  exact settles_declare (settles_bindingNone first (settles_binding (settles_string "") second
    (settles_binding function third settles_noBinding)))

end

/-! ### Calls -/

/-- The variables of a call of a template's function before its body runs. -/
def parameterScope (p : String) (v : Value) : Scope :=
  Scope.put [(p, ⟨v, true⟩)] "_" ⟨helper, true⟩

/-- A store with another number of open calls. -/
def Store.withDepth (s : Store) (depth : Nat) : Store :=
  { s with depth := depth }

theorem Store.Given.withDepth {s : Store} (g : s.Given) (depth : Nat) : (s.withDepth depth).Given :=
  ⟨g.items, g.fields, g.helper, g.natives⟩

theorem Store.text_withDepth (s : Store) (depth : Nat) (v : Value) :
    (s.withDepth depth).text v = s.text v := by
  have within : ∀ n v, (s.withDepth depth).textWithin? n v = s.textWithin? n v := by
    intro n
    induction n with
    | zero => intro v; cases v <;> rfl
    | succ n ih =>
        intro v
        cases v with
        | array a =>
            rw [Store.textWithin?_array, Store.textWithin?_array, show
              (s.withDepth depth).elementWithin? n = s.elementWithin? n from funext fun v => by
                rw [Store.elementWithin?, Store.elementWithin?, ih]]
            rfl
        | _ => rfl
  exact congrArg (·.getD "") (within _ v)

/-- The text of what a body has returned. -/
def returnedText : Outcome Completion → Except Stop String
  | .ok (.return v) t => .ok (t.text v)
  | .ok _ t => .ok (t.text .undefined)
  | .error e _ => .error e

theorem resultText_runBody {body : List Stmt} {env : Env} {n : Nat} {s t : Store}
    {r : Outcome Completion} (hhoist : Discipline.hoist env body s = .ok () t)
    (h : execAll n body env (t.withDepth (t.depth + 1)) = r) :
    resultText (runBody n body env s) = returnedText r := by
  have hcall : asCall (execAll n body env) t = mapStore (fun u => u.withDepth (u.depth - 1)) r := by
    have hrun : execAll n body env { t with depth := t.depth + 1 } = r := h
    rw [asCall, hrun]
    cases r <;> rfl
  rw [runBody, run_bind, hhoist]
  dsimp only
  rw [run_bind, hcall]
  cases r with
  | error e u => rfl
  | ok completion u =>
      have text := u.text_withDepth (u.depth - 1)
      cases completion <;> exact congrArg Except.ok (text _)

/-- **Calls of a template's function**, by the run of its body. -/
theorem apply_eventually {p : String} {body : List Stmt} {data : Json.Document} {v : Value}
    {s : Store} (hdata : importDocument data Store.initial = .ok v s)
    (hf : declareFunctions callEnv body = pure ()) {r : Outcome Completion}
    (h : Settles (fun n => execAll n body callEnv) ((s.withDepth 1).withScopes
      (callScopes ((parameterScope p v).declared (hoistedNames body)))) r) :
    ∃ enough, ∀ n, enough ≤ n → (functionOf p body).apply n data = returnedText r := by
  obtain ⟨enough, h⟩ := h
  obtain ⟨hscopes, -, hdepth⟩ := importDocument_initial hdata
  refine ⟨enough + 1, fun n hn => ?_⟩
  obtain ⟨n, rfl⟩ : ∃ k, n = k + 1 := ⟨n - 1, by omega⟩
  have hhoist : Discipline.hoist callEnv body (s.withScopes (bothBound p v)) =
      .ok () (s.withScopes (callScopes ((parameterScope p v).declared (hoistedNames body)))) := by
    rw [Discipline.hoist, run_bind, hf, declareVars_call (s := s.withScopes (bothBound p v)) rfl]
    rfl
  rw [functionOf, apply_run hdata (bindParameters_both v s hscopes)]
  refine resultText_runBody hhoist ?_
  rw [Store.depth_withScopes, hdepth]
  exact h n (by omega)

end Script
end Stencil
