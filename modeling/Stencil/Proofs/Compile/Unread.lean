import Stencil.Proofs.Compile.Prelude
import Stencil.Proofs.Twin.Data
import Stencil.Proofs.Twin.Runs

/-!
# Compile — data that is not read

Without a name for the data, a template reads of it only the members with the names that it takes
from outside, unless its script mentions the name of the parameter.  So two objects that have these
members alike give the same output, whatever else they hold.

* `DataBound`: the parameter is bound to an object, and stays so while other names are bound.
* `twin_runBody`: calls that bind the shared members end alike.
* `render_shared`: two objects of data with the same members under these names.
-/

namespace Stencil
namespace Script

/-! ### The parameter -/

/-- The name `p` is bound in the scope of a call from outside, to an object with the given fields. -/
structure DataBound (p : String) (o : Ref) (fields : Fields) (s : Store) : Prop where
  bound : (Scopes.scope s.scopes Scopes.callScope).get? p = some ⟨.object o, true⟩
  fields : s.fields o = fields

namespace DataBound
variable {p : String} {o : Ref} {fields : Fields} {s t : Store} {env : Env} {n : String}

theorem find? (h : DataBound p o fields s) :
    Scopes.find? s.scopes p callEnv = some (Scopes.callScope, ⟨.object o, true⟩) := by
  rw [callEnv, Scopes.find?_cons, h.bound]

theorem put (h : DataBound p o fields s) (hn : n ≠ p) (r : Ref) (v : Variable) :
    DataBound p o fields (s.withScopes (Scopes.put s.scopes r n v)) where
  bound := by
    rw [Store.scopes_withScopes, Scopes.scope_put]
    split
    · rw [Scope.get?_put_of_ne hn.symm]
      exact h.bound
    · exact h.bound
  fields := h.fields

theorem put_self (h : DataBound p o fields s) :
    DataBound p o fields
      (s.withScopes (Scopes.put s.scopes Scopes.callScope p ⟨.object o, true⟩)) where
  bound := by
    rw [Store.scopes_withScopes, Scopes.scope_put]
    split
    · rw [Scope.get?_put_self]
    · exact h.bound
  fields := h.fields

end DataBound

/-- Computations that leave the parameter as it is. -/
def KeepsData (p : String) {α : Type} (m : Run α) : Prop :=
  ∀ (o : Ref) (fields : Fields) (s : Store) (a : α) (t : Store),
    DataBound p o fields s → m s = .ok a t → DataBound p o fields t

section
variable {p n : String} {α β : Type} {env : Env}

theorem KeepsData.bind {m : Run α} {f : α → Run β} (hm : KeepsData p m)
    (hf : ∀ a, KeepsData p (f a)) : KeepsData p (m >>= f) := by
  intro o fields s b u h hr
  obtain ⟨a, t, ht, hr⟩ := bind_eq_ok hr
  exact hf a _ _ _ _ _ (hm _ _ _ _ _ h ht) hr

theorem keepsData_pure (a : α) : KeepsData p (pure a : Run α) := by
  intro _ _ _ _ _ h hr
  cases hr
  exact h

theorem keepsData_declareVar (hn : n ≠ p) : KeepsData p (declareVar env n) := by
  intro _ _ _ _ _ h hr
  rw [declareVar_run] at hr
  split at hr <;> cases hr
  · exact h
  · exact h.put hn _ _

theorem keepsData_assignName (hn : n ≠ p) (v : Value) : KeepsData p (assignName env n v) := by
  intro _ _ _ _ _ h hr
  rw [assignName_run] at hr
  split at hr
  · split at hr <;> cases hr
    exact h.put hn _ _
  · cases hr

theorem keepsData_bindDeclared (hn : n ≠ p) (v : Value) :
    KeepsData p (bindDeclared .var n (some v) env) :=
  (keepsData_declareVar hn).bind fun _ => keepsData_assignName hn v

theorem keepsData_declareFunction {d : Definition} (hn : d.name.getD "" ≠ p) :
    KeepsData p (declareFunction d env) := by
  have made : KeepsData p (newFunction (.closure d env)) := by
    intro _ _ _ _ _ h hr
    cases hr
    exact ⟨h.bound, h.fields⟩
  exact made.bind fun f => (keepsData_declareVar hn).bind fun _ => keepsData_assignName hn f

theorem keepsData_declareVars : ∀ {names : List String}, (∀ n ∈ names, n ≠ p) →
    KeepsData p (declareVars env names)
  | [], _ => keepsData_pure ()
  | _ :: _, hn => (keepsData_declareVar (hn _ List.mem_cons_self)).bind fun _ =>
      keepsData_declareVars fun m hm => hn m (List.mem_cons_of_mem _ hm)

end

namespace Link

variable {K : Link}

theorem keepsData_declareFunctions {env : Env} : ∀ {body : List Stmt},
    K.Unmentioned (mentionsBody body) → KeepsData K.hidden (declareFunctions env body)
  | [], _ => keepsData_pure ()
  | first :: rest, h => by
      rw [mentionsBody, unmentioned_append] at h
      have others : KeepsData K.hidden (declareFunctions env rest) :=
        keepsData_declareFunctions h.2
      cases first with
      | function d =>
          refine (keepsData_declareFunction fun hn => ?_).bind fun _ => others
          exact h.1 (.named (d.name.getD "")) List.mem_cons_self (congrArg some hn)
      | _ => exact others

/-! ### The bindings of members -/

section
variable {names : List String} {o o' : Ref} {fields fields' : Fields} {s s' : Store}

section
variable {p : String} (h : DataBound p o fields s)
include h

/-- `p`, as a run. -/
theorem eval_data : ∀ n, eval n (.name p) callEnv s =
    if n < 1 then .error .exhausted s else .ok (.object o) s
  | 0 => by rw [eval]; rfl
  | n + 1 => by
      rw [eval, lookUp_run, h.find?, if_neg (by omega)]

/-- `n = p.n`, as a run. -/
theorem eval_member (word : String) : ∀ n, eval n (.member (.name p) word) callEnv s =
    if n < 2 then .error .exhausted s else .ok ((fields.get? word).getD .undefined) s
  | 0 => by rw [eval]; rfl
  | n + 1 => by
      rw [eval, run_bind, eval_data h n]
      by_cases hn : n < 1
      · rw [if_pos hn, if_pos (by omega)]
      · rw [if_neg hn, if_neg (by omega), ← h.fields]
        rfl

/-- `p || {}`, as a run. -/
theorem eval_orEmpty : ∀ n, eval n (.logical .or (.name p) (.object [])) callEnv s =
    if n < 2 then .error .exhausted s else .ok (.object o) s
  | 0 => by rw [eval]; rfl
  | n + 1 => by
      rw [eval, run_bind, eval_data h n]
      by_cases hn : n < 1
      · rw [if_pos hn, if_pos (by omega)]
      · rw [if_neg hn, if_neg (by omega)]
        rfl

/-- `p = p || {}`, as a run. -/
theorem eval_assignDefault : ∀ n,
    eval n (.assign none (.name p) (.logical .or (.name p) (.object []))) callEnv s =
      if n < 3 then .error .exhausted s
      else .ok (.object o)
        (s.withScopes (Scopes.put s.scopes Scopes.callScope p ⟨.object o, true⟩))
  | 0 => by rw [eval]; rfl
  | 1 => by rw [eval, run_bind, evalPlace]; rfl
  | n + 2 => by
      rw [eval, run_bind, evalPlace]
      show (eval (n + 1) _ callEnv >>= _) s = _
      rw [run_bind, eval_orEmpty h (n + 1)]
      by_cases hn : n < 1
      · rw [if_pos (by omega), if_pos (by omega)]
      · rw [if_neg (by omega), if_neg (by omega)]
        show (assignName callEnv p _ >>= _) s = _
        rw [run_bind, assignName_run, h.find?]
        rfl

/-- `p = p || {};`, as a run. -/
theorem exec_default : ∀ n, exec n (Template.defaultStatement p) callEnv s =
    if n < 4 then .error .exhausted s
    else .ok .normal (s.withScopes (Scopes.put s.scopes Scopes.callScope p ⟨.object o, true⟩))
  | 0 => by rw [exec]; rfl
  | n + 1 => by
      rw [Template.defaultStatement, exec, run_bind, eval_assignDefault h n]
      by_cases hn : n < 3
      · rw [if_pos hn, if_pos (by omega)]
      · rw [if_neg hn, if_neg (by omega)]
        rfl

end

/-- Members that are the same are bound alike. -/
theorem twin_members : ∀ {names : List String} {s s' : Store} (n : Nat), K.Linked s s' →
    DataBound K.hidden o fields s → DataBound K.hidden o' fields' s' →
    (∀ w ∈ names, w ≠ K.hidden ∧
      K.Same ((fields.get? w).getD .undefined) ((fields'.get? w).getD .undefined)) →
    K.TwinUnit (execBindings n .var (names.map (Template.memberBinding K.hidden)) callEnv)
      (execBindings n .var (names.map (Template.memberBinding K.hidden)) callEnv) s s'
  | _, _, _, 0, _, _, _, _ => by rw [execBindings]; exact twin_exhausted
  | [], _, _, _ + 1, l, _, _, _ => by
      rw [List.map_nil, execBindings]
      exact twin_pure l trivial
  | w :: names, s, s', n + 1, l, hb, hb', hw => by
      obtain ⟨hn, hv⟩ := hw w List.mem_cons_self
      have value : K.Twin (fun v v' => v = (fields.get? w).getD .undefined ∧
            v' = (fields'.get? w).getD .undefined)
          (eval n (.member (.name K.hidden) w) callEnv)
          (eval n (.member (.name K.hidden) w) callEnv) s s' := by
        unfold Twin
        rw [eval_member hb w n, eval_member hb' w n]
        split
        · exact .error _ _ _
        · exact .ok ⟨rfl, rfl⟩ l
      rw [List.map_cons, Template.memberBinding, execBindings]
      refine value.bind_run fun v v' t t' ht ht' hvs l₁ => ?_
      obtain ⟨rfl, rfl⟩ := hvs
      rw [eval_member hb w n] at ht
      rw [eval_member hb' w n] at ht'
      split at ht <;> cases ht
      rw [if_neg ‹_›] at ht'
      cases ht'
      refine (twin_bindDeclared l hn .var (.some hv)).bind_run fun _ _ u u' hu hu' _ l₂ => ?_
      exact twin_members n l₂ (keepsData_bindDeclared hn _ _ _ _ _ _ hb hu)
        (keepsData_bindDeclared hn _ _ _ _ _ _ hb' hu') fun w hm => hw w (List.mem_cons_of_mem _ hm)

variable (l : K.Linked s s') (hb : DataBound K.hidden o fields s)
  (hb' : DataBound K.hidden o' fields' s') (hw : ∀ w ∈ names, w ≠ K.hidden ∧
    K.Same ((fields.get? w).getD .undefined) ((fields'.get? w).getD .undefined))
include l hb hb' hw

theorem twin_declareMembers : ∀ n, K.Twin (fun c c' => c = .normal ∧ c' = .normal)
    (exec n (.declare .var (names.map (Template.memberBinding K.hidden))) callEnv)
    (exec n (.declare .var (names.map (Template.memberBinding K.hidden))) callEnv) s s'
  | 0 => by rw [exec]; exact twin_exhausted
  | n + 1 => by
      rw [exec]
      exact (twin_members n l hb hb' hw).bind fun _ _ _ _ _ l' => twin_pure l' ⟨rfl, rfl⟩

variable {body : List Stmt} (h : K.Unmentioned (mentionsBody body))
include h

/-- Bodies after the bindings of the same members. -/
theorem twin_afterDefault (n : Nat) : K.TwinCompletions
    (execAll n ((Template.bindingStatements K.hidden names).tail ++ body) callEnv)
    (execAll n ((Template.bindingStatements K.hidden names).tail ++ body) callEnv) s s' := by
  cases names with
  | nil => exact (twins n).execAll body callEnv l h
  | cons w names =>
      cases n with
      | zero => rw [execAll]; exact twin_exhausted
      | succ n =>
          show K.TwinCompletions (execAll (n + 1) (.declare .var _ :: body) callEnv)
            (execAll (n + 1) (.declare .var _ :: body) callEnv) s s'
          rw [execAll]
          refine (twin_declareMembers l hb hb' hw n).bind fun c c' t t' hc l' => ?_
          obtain ⟨rfl, rfl⟩ := hc
          exact (twins n).execAll body callEnv l' h

/-- **Bodies** that bind the same members end alike. -/
theorem twin_execAll_bindings : ∀ n, K.TwinCompletions
    (execAll n (Template.bindingStatements K.hidden names ++ body) callEnv)
    (execAll n (Template.bindingStatements K.hidden names ++ body) callEnv) s s'
  | 0 => by rw [execAll]; exact twin_exhausted
  | n + 1 => by
      have first : K.Twin (fun c c' => c = .normal ∧ c' = .normal)
          (exec n (Template.defaultStatement K.hidden) callEnv)
          (exec n (Template.defaultStatement K.hidden) callEnv) s s' := by
        unfold Twin
        rw [exec_default hb n, exec_default hb' n]
        split
        · exact .error _ _ _
        · exact .ok ⟨rfl, rfl⟩ (l.withScopes (l.scopes.put _ fun hn => absurd rfl hn))
      rw [Template.bindingStatements, List.cons_append, execAll]
      refine first.bind_run fun c c' t t' ht ht' hc l₁ => ?_
      obtain ⟨rfl, rfl⟩ := hc
      rw [exec_default hb n] at ht
      rw [exec_default hb' n] at ht'
      split at ht <;> cases ht
      rw [if_neg ‹_›] at ht'
      cases ht'
      exact twin_afterDefault l₁ hb.put_self hb'.put_self hw h n

end

/-! ### Calls -/

theorem Ends.resultText {r r' : Outcome Value} (h : K.Ends K.Same r r') :
    resultText r = resultText r' := by
  cases h with
  | ok h l => exact congrArg Except.ok (l.text h)
  | error e t t' => rfl

theorem declareFunctions_bindings (env : Env) (p : String) (names : List String)
    (body : List Stmt) :
    declareFunctions env (Template.bindingStatements p names ++ body) =
      declareFunctions env body := by
  cases names <;> rfl

theorem hoistedNames_bindings (p : String) (names : List String) :
    hoistedNames (Template.bindingStatements p names) = names := by
  cases names with
  | nil => rfl
  | cons w names =>
      have hmap : ((w :: names).map (Template.memberBinding p)).map Prod.fst = w :: names := by
        rw [List.map_map]
        exact List.map_id _
      simp only [Template.bindingStatements, List.isEmpty_cons, Bool.false_eq_true, if_false,
        hoistedNames, Stmt.hoisted, hmap, List.append_nil]
      rfl

section
variable {names : List String} {o o' : Ref} {fields fields' : Fields} {s s' : Store}

/-- **Calls** that bind the same members end alike. -/
theorem twin_runBody (l : K.Linked s s') (hb : DataBound K.hidden o fields s)
    (hb' : DataBound K.hidden o' fields' s') (hw : ∀ w ∈ names, w ≠ K.hidden ∧
      K.Same ((fields.get? w).getD .undefined) ((fields'.get? w).getD .undefined))
    {body : List Stmt} (h : K.Unmentioned (mentionsBody body)) (n : Nat) :
    K.TwinValues (runBody n (Template.bindingStatements K.hidden names ++ body) callEnv)
      (runBody n (Template.bindingStatements K.hidden names ++ body) callEnv) s s' := by
  have hoisted : ∀ w ∈ hoistedNames (Template.bindingStatements K.hidden names ++ body),
      w ≠ K.hidden := by
    intro w hm
    rw [Template.hoistedNames_append, hoistedNames_bindings, List.mem_append] at hm
    exact hm.elim (fun hm => (hw w hm).1) (h.hoisted w)
  have keeps : KeepsData K.hidden
      (Discipline.hoist callEnv (Template.bindingStatements K.hidden names ++ body)) := by
    rw [Discipline.hoist, declareFunctions_bindings]
    exact (keepsData_declareVars hoisted).bind fun _ => keepsData_declareFunctions h
  have hoist : K.TwinUnit
      (Discipline.hoist callEnv (Template.bindingStatements K.hidden names ++ body))
      (Discipline.hoist callEnv (Template.bindingStatements K.hidden names ++ body)) s s' := by
    rw [Discipline.hoist, declareFunctions_bindings]
    exact (twin_declareVars l hoisted).bind fun _ _ t t' _ l' => twin_declareFunctions l' h
  rw [runBody]
  refine hoist.bind_run fun _ _ t t' ht ht' _ l₁ => ?_
  have hb₁ := keeps _ _ _ _ _ hb ht
  have hb₁' := keeps _ _ _ _ _ hb' ht'
  have deeper : K.Linked { t with depth := t.depth + 1 } { t' with depth := t'.depth + 1 } :=
    { l₁ with depth := congrArg (· + 1) l₁.depth }
  have body := twin_execAll_bindings deeper ⟨hb₁.bound, hb₁.fields⟩ ⟨hb₁'.bound, hb₁'.fields⟩ hw h n
  refine (twin_asCall body).bind fun c c' u u' hc l₂ => ?_
  cases hc with
  | «return» hv => exact twin_pure l₂ hv
  | _ => exact twin_pure l₂ .undefined

end

end Link

end Script

namespace Template
open Script

theorem ne_parameter_of_mem_freeNames {p n : String} {body : List Stmt}
    (hn : n ∈ freeNames (functionOf p body)) : n ≠ p := by
  rintro rfl
  have hu := (mem_freeNames.mp hn).1
  rw [Definition.uses_eq, List.append_nil] at hu
  exact ((mem_usesBody n _ _).mp hu).2 (Definition.mem_bound.mpr (.inr (.inl List.mem_cons_self)))

theorem dataBound_call {p : String} (hp : p ≠ "_") (t : Store) (fields : Fields) :
    DataBound p t.objects.size fields
      (Store.withScopes { t with objects := t.objects.push fields }
        (bothBound p (.object t.objects.size))) where
  bound := by
    have hput : Scope.get? (Scope.put [(p, ⟨.object t.objects.size, true⟩)] "_" ⟨helper, true⟩) p =
        some ⟨.object t.objects.size, true⟩ := by
      rw [Scope.get?_put_of_ne hp, Scope.get?, List.lookup_cons_self]
    exact hput
  fields := (t.fields_push fields _).trans (if_pos rfl)

/-- **Data that is not read.**  A call of a function that binds members ends alike for two objects
with the same members under the names that it binds. -/
theorem apply_shared {p : String} (hp : p ≠ "_") {body : List Stmt}
    {members members' : List (String × Json.Document)}
    (hb : ∀ m ∈ mentionsBody body, m.name? ≠ some p)
    (hs : ∀ n ∈ freeNames (functionOf p body),
      Json.lastValue? members n = Json.lastValue? members' n) (steps : Nat) :
    (boundFunction p body).apply steps (.object members) =
      (boundFunction p body).apply steps (.object members') := by
  obtain ⟨fields, t, h, -⟩ := grown_importMembers members Store.initial
  obtain ⟨fields', t', h', -⟩ := grown_importMembers members' Store.initial
  have data := importDocument_object h
  have data' := importDocument_object h'
  cases steps with
  | zero => simp only [Definition.apply, callWith, run_bind, data, data', invoke]; rfl
  | succ n =>
      have same : ∀ w ∈ freeNames (functionOf p body), w ≠ p ∧
          (dataLink p members members').Same (((writtenFields fields).get? w).getD .undefined)
            (((writtenFields fields').get? w).getD .undefined) :=
        fun w hw => ⟨ne_parameter_of_mem_freeNames hw, same_member h h' p (hs w hw)⟩
      have ends := Link.twin_runBody (linked_importMembers h h' p _ _) (dataBound_call hp t _)
        (dataBound_call hp t' _) same hb n
      have bound := @bindParameters_both p (.object t.objects.size) _
        (importDocument_initial data).1
      have bound' := @bindParameters_both p (.object t'.objects.size) _
        (importDocument_initial data').1
      rw [boundFunction, functionOf, apply_run data bound, apply_run data' bound']
      exact Link.Ends.resultText ends

/-- **Data that is not read**, of templates without a name for the data.  If no statement of the
template's body mentions the parameter, all that the output depends on are the members with the names
that the body takes from outside, and these are none of the names that the template uses itself. -/
theorem render_shared {settings : Settings} (h : settings.dataName = none) {text : String}
    {t : Template} (hc : compile settings text = .ok t) {d : Definition}
    (hd : build dataParameter (Body.ofTemplate (pieces settings text)) = .ok d)
    (hb : ∀ m ∈ mentionsBody d.body, m.name? ≠ some dataParameter) :
    (∀ n, n ∈ preludeNames ∨ n ∈ globalNames → n ∉ freeNames d) ∧
    ∀ members members' : List (String × Json.Document),
      (∀ n ∈ freeNames d, Json.lastValue? members n = Json.lastValue? members' n) →
      ∀ steps, t.render steps (.object members) = t.render steps (.object members') := by
  refine ⟨fun n hn => not_mem_freeNames hd hn, fun members members' hs steps => ?_⟩
  rw [compile_default h, hd] at hc
  cases hc
  obtain ⟨-, stmts, -, rfl⟩ := build_eq_ok.mp hd
  exact apply_shared (by decide) hb hs steps

/-- A template that reads one member. -/
def oneMember : String := "<%= a %>"

/-- Members beside `a`, also under names that are bound already, change nothing in `oneMember`. -/
theorem render_shared_oneMember : Settings.standard.dataName = none ∧
    ∃ t d, compile .standard oneMember = .ok t ∧
      build dataParameter (Body.ofTemplate (pieces .standard oneMember)) = .ok d ∧
      (∀ m ∈ mentionsBody d.body, m.name? ≠ some dataParameter) ∧ freeNames d = ["a"] ∧
      ∀ steps, t.render steps (.object [("a", .string "x")]) =
        t.render steps (.object [("_", .null), ("print", .array [.object []]), ("a", .string "x")]) := by
  have hread : (readBody (bodyChars (pieces .standard oneMember))).toOption.map (fun stmts =>
      (freeNames (functionOf dataParameter stmts),
        (mentionsBody stmts).all (·.name? != some dataParameter))) = some (["a"], true) := by
    decide +kernel
  obtain ⟨stmts, source, -, hd, hc, hshown⟩ := compile_of_readBody hread rfl
  obtain ⟨hfree, hall⟩ := Prod.mk.inj hshown
  have hb : ∀ m ∈ mentionsBody stmts, m.name? ≠ some dataParameter := fun m hm =>
    bne_iff_ne.mp (List.all_eq_true.mp hall m hm)
  refine ⟨rfl, _, _, hc, hd, hb, hfree, fun steps => ?_⟩
  refine (render_shared rfl hc hd hb).2 _ _ (fun n hn => ?_) steps
  obtain rfl : n = "a" := by rwa [hfree, List.mem_singleton] at hn
  rfl

/-- A template with a directive that ends inside a string, so that the text after it is script. -/
def openString : String := "<% var s = \"\\%>\"; print(obj.secret); //"

/-- No directive of `openString` has the name of the parameter in it, and yet the output depends on
a member that is not among the names taken from outside. -/
theorem openString_reads : (∀ kind inner, .directive kind inner ∈ pieces .standard openString →
      ¬ dataParameter.toList <:+: inner) ∧
    ∃ t d, compile .standard openString = .ok t ∧
      build dataParameter (Body.ofTemplate (pieces .standard openString)) = .ok d ∧
      freeNames d = [] ∧
      t.render 60 (.object [("secret", .string "1")]) = .ok "1" ∧
      t.render 60 (.object [("secret", .string "2")]) = .ok "2" := by
  have hpieces : pieces .standard openString =
      [.directive .evaluate " var s = \"\\".toList,
        .literal "\"; print(obj.secret); //".toList] := by decide +kernel
  have hread : (readBody (bodyChars (pieces .standard openString))).toOption.map (fun stmts =>
      (freeNames (functionOf dataParameter stmts),
        (boundFunction dataParameter stmts).apply 60 (.object [("secret", .string "1")]),
        (boundFunction dataParameter stmts).apply 60 (.object [("secret", .string "2")]))) =
      some ([], .ok "1", .ok "2") := by decide +kernel
  refine ⟨fun kind inner hm => ?_, ?_⟩
  · rw [hpieces] at hm
    simp only [List.mem_cons, List.not_mem_nil, or_false, Piece.directive.injEq,
      reduceCtorEq] at hm
    obtain ⟨-, rfl⟩ := hm
    decide
  · obtain ⟨stmts, source, -, hd, hc, hshown⟩ := compile_of_readBody hread rfl
    obtain ⟨hfree, hboth⟩ := Prod.mk.inj hshown
    obtain ⟨hone, htwo⟩ := Prod.mk.inj hboth
    exact ⟨_, _, hc, hd, hfree, hone, htwo⟩

end Template

end Stencil
