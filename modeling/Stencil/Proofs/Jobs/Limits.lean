import Stencil.Proofs.Jobs.Contract
import Stencil.Proofs.Jobs.Fallbacks
import Stencil.Proofs.Jobs.Fits

/-!
# Jobs — the limits of strings and arrays

All strings and arrays of a run are within the limits, if those of the script and of the data are, up
to the first operation that breaches the limits, and only operations that ask for no limit do.

* `limits_sound`: the limits as a contract.
* `Definition.within_limits`: so the entries of a log are within the limits up to the first breach,
  and operations that ask for a limit fail just where it is exceeded.
-/

namespace Stencil.Script
open Stencil

/-! ### Fields are never lost -/

/-- Whether objects have no fewer fields than before. -/
def Store.FieldsGrow (s t : Store) : Prop :=
  ∀ o, (s.fields o).length ≤ (t.fields o).length

/-- Computations that leave objects no fewer fields. -/
def KeepsFields {α : Type} (m : Run α) : Prop :=
  ∀ s : Store, s.FieldsGrow (storeOf (m s))

section
variable {α β : Type}

theorem keepsFields_of_objects {m : Run α} (h : ∀ s, (storeOf (m s)).objects = s.objects) :
    KeepsFields m := by
  intro s o
  rw [Store.fields, Store.fields, h s]

theorem keepsFields_pure (a : α) : KeepsFields (pure a) :=
  fun _ _ => Nat.le_refl _

theorem keepsFields_fail (f : Fault) : KeepsFields (Script.fail f : Run α) :=
  fun _ _ => Nat.le_refl _

theorem keepsFields_reading {k : Store → Run β} (h : ∀ s, KeepsFields (k s)) :
    KeepsFields (get >>= k) :=
  fun s => h s s

theorem KeepsFields.bind {m : Run α} {k : α → Run β} (hm : KeepsFields m)
    (hk : ∀ a, KeepsFields (k a)) : KeepsFields (m >>= k) := by
  intro s
  have h := hm s
  rw [run_bind]
  cases hr : m s with
  | ok a t =>
      rw [hr] at h
      exact fun o => (h o).trans (hk a t o)
  | error e t =>
      rw [hr] at h
      exact h

theorem keepsFields_newArray (items : Array Value) : KeepsFields (newArray items) :=
  keepsFields_of_objects fun _ => rfl

theorem keepsFields_newObject (fields : Fields) : KeepsFields (newObject fields) := by
  intro s o
  show _ ≤ (Store.fields { s with objects := s.objects.push fields } o).length
  rw [Store.fields_push]
  split
  · rename_i ho
    rw [Store.fields, Array.getD_eq_getD_getElem?, ho, Array.getElem?_eq_none (Nat.le_refl _)]
    exact Nat.zero_le _
  · exact Nat.le_refl _

theorem keepsFields_changeItems (a : Ref) (f : Array Value → Array Value) :
    KeepsFields (changeItems a f) :=
  keepsFields_of_objects fun _ => rfl

theorem keepsFields_put (r : Ref) (key : String) (v : Value) :
    KeepsFields (changeFields r (·.put key v)) := by
  intro s o
  show _ ≤ (Store.fields { s with objects := s.objects.modify r (·.put key v) } o).length
  rw [Store.fields_modify]
  split
  · exact Fields.length_put _ key v
  · exact Nat.le_refl _

end

theorem keepsFields_setProperty (base : Value) (key : String) (v : Value) :
    KeepsFields (setProperty base key v) := by
  cases base with
  | undefined | null => exact keepsFields_fail _
  | object o => exact keepsFields_put o key v
  | array a =>
      unfold setProperty
      dsimp only
      split
      · refine keepsFields_reading fun s => ?_
        split
        · exact keepsFields_fail _
        · exact keepsFields_changeItems _ _
      · split
        · refine keepsFields_reading fun s => ?_
          split
          · exact keepsFields_changeItems _ _
          · exact keepsFields_fail _
        · exact keepsFields_pure _
  | _ => exact keepsFields_pure _

theorem keepsFields_operate (op : BinaryOp) (v w : Value) : KeepsFields (operate op v w) := by
  have join (a b : String) : KeepsFields (add.join a b) := by
    unfold add.join
    split
    · exact keepsFields_fail _
    · exact keepsFields_pure _
  cases op
  case add =>
    refine keepsFields_reading fun s => ?_
    split
    · exact join _ _
    · exact join _ _
    · exact keepsFields_pure _
  all_goals exact keepsFields_reading fun _ => keepsFields_pure _

theorem keepsFields_arrayMethod (m : ArrayMethod) (a : Ref) (arguments : List Value) :
    KeepsFields (m.run a arguments) := by
  cases m
  case push =>
    exact (keepsFields_changeItems _ _).bind fun _ => keepsFields_reading fun _ => keepsFields_pure _
  case pop =>
    exact keepsFields_reading fun _ => (keepsFields_changeItems _ _).bind fun _ => keepsFields_pure _
  case slice | concat => exact keepsFields_reading fun _ => keepsFields_newArray _
  all_goals exact keepsFields_reading fun _ => keepsFields_pure _

theorem keepsFields_stringMethod (m : StringMethod) (t : String) (arguments : List Value) :
    KeepsFields (m.run t arguments) := by
  cases m
  case split =>
    refine keepsFields_reading fun s => ?_
    dsimp only
    split <;> exact keepsFields_newArray _
  case «repeat» =>
    refine keepsFields_reading fun s => ?_
    show KeepsFields (repeated t (s.whole (argument arguments 0)))
    unfold repeated
    split
    · split
      · exact keepsFields_fail _
      · split
        · exact keepsFields_fail _
        · exact keepsFields_pure _
    · exact keepsFields_fail _
  all_goals exact keepsFields_reading fun _ => keepsFields_pure _

theorem keepsFields_numberMethod (m : NumberMethod) (x : Float) (arguments : List Value) :
    KeepsFields (m.run x arguments) := by
  cases m
  case toString => exact keepsFields_pure _
  case toFixed =>
    refine keepsFields_reading fun s => ?_
    unfold fixedText
    split
    · split
      · exact keepsFields_fail _
      · split <;> exact keepsFields_pure _
    · exact keepsFields_fail _

/-- **No operation takes fields away.** -/
theorem Op.fieldsGrow {o : Op} {s t : Store} {a : o.Result} (hr : o.run s = .ok a t) :
    s.FieldsGrow t := by
  have kept : KeepsFields o.run := by
    cases o with
    | fail f => exact keepsFields_fail f
    | declare env name v mutable =>
        refine keepsFields_reading fun s => ?_
        split
        · exact keepsFields_fail _
        · exact keepsFields_of_objects fun _ => rfl
    | declareVar env name =>
        refine keepsFields_reading fun s => ?_
        split <;> exact keepsFields_of_objects fun _ => rfl
    | lookUp env name =>
        refine keepsFields_reading fun s => ?_
        split
        · exact keepsFields_pure _
        · exact keepsFields_fail _
    | typeOfName env name =>
        refine keepsFields_reading fun s => ?_
        split <;> exact keepsFields_pure _
    | assign env name v =>
        refine keepsFields_reading fun s => ?_
        split
        · split
          · exact keepsFields_of_objects fun _ => rfl
          · exact keepsFields_fail _
        · exact keepsFields_fail _
    | getProperty base key =>
        refine keepsFields_reading fun s => ?_
        cases base with
        | undefined | null => exact keepsFields_fail _
        | _ => exact keepsFields_pure _
    | unary op v =>
        refine keepsFields_reading fun s => ?_
        cases op <;> exact keepsFields_pure _
    | loopItems v =>
        refine keepsFields_reading fun s => ?_
        cases v with
        | array | string => exact keepsFields_pure _
        | _ => exact keepsFields_fail _
    | numberMethod m x arguments => exact keepsFields_numberMethod m x arguments
    | newObject fields => exact keepsFields_newObject fields
    | setProperty base key v => exact keepsFields_setProperty base key v
    | binary op v w => exact keepsFields_operate op v w
    | arrayMethod m r arguments => exact keepsFields_arrayMethod m r arguments
    | stringMethod m text arguments => exact keepsFields_stringMethod m text arguments
    | plain n arguments =>
        cases n
        case keys | values => exact keepsFields_reading fun _ => keepsFields_newArray _
        all_goals exact keepsFields_reading fun _ => keepsFields_pure _
    | collect m items returned =>
        cases m
        case forEach => exact keepsFields_pure _
        all_goals exact keepsFields_newArray _
    | _ => exact keepsFields_of_objects fun _ => rfl
  have h := kept s
  rw [hr] at h
  exact h

/-! ### The contract -/

/-- Places whose base is within the limit. -/
def Place.Fits : Place → Prop
  | .name _ => True
  | .property base _ => base.Fits

/-- Ends of statements whose value is within the limit. -/
def Completion.Fits : Completion → Prop
  | .return v => v.Fits
  | _ => True

/-- What jobs rely on. -/
def Job.Fits : Job → Prop
  | .eval e _ => e.Fits
  | .evalAll es _ => FitsAll es
  | .evalFields fields done _ => FitsFields fields ∧ Fields.Fits done
  | .evalPlace e _ => e.Fits
  | .evalCall callee arguments _ =>
    callee.Fits ∧ arguments.length ≤ maxArrayElements ∧ FitsAll arguments
  | .callMethod _ receiver _ arguments => receiver.Fits ∧ ListFits arguments
  | .visit _ whole entries done =>
    whole.Fits ∧ (∀ e ∈ entries, e.1.Fits ∧ e.2.Fits) ∧ ∀ v ∈ done, v.Fits
  | .call _ arguments => ListFits arguments
  | .invoke d _ arguments => d.Fits ∧ ListFits arguments
  | .exec stmt _ => stmt.Fits
  | .execAll body _ => FitsBody body
  | .execBindings _ bindings _ => FitsBindings bindings
  | .execLoop test update body _ => FitsOption test ∧ FitsOption update ∧ body.Fits
  | .evalTest test _ => FitsOption test
  | .evalUpdate update _ => FitsOption update
  | .execEach _ items body _ => (∀ v ∈ items, v.Fits) ∧ body.Fits

/-- What jobs give. -/
def Job.Gives : (j : Job) → j.Result → Prop
  | .eval _ _, a | .evalCall _ _ _, a | .callMethod _ _ _ _, a => Value.Fits a
  | .call _ _, a | .invoke _ _ _, a => Value.Fits a
  | .evalAll es _, vs => vs.length = es.length ∧ ∀ v ∈ vs, v.Fits
  | .evalFields _ _ _, fields => Fields.Fits fields
  | .evalPlace _ _, place => place.Fits
  | .visit _ _ entries done, vs =>
    vs.length = done.length + entries.length ∧ ∀ v ∈ vs, v.Fits
  | .exec _ _, c | .execAll _ _, c | .execLoop _ _ _ _, c | .execEach _ _ _ _, c => c.Fits
  | .execBindings _ _ _, _ | .evalTest _ _, _ | .evalUpdate _ _, _ => True

/-- **The limits as a contract.** -/
def limits : Contract where
  inv := Store.Fits
  keeps := Store.FieldsGrow
  pre j _ := j.Fits
  opPre o s := o.Fits s
  post j _ a _ := j.Gives a
  opPost o _ a t := o.Gives a t
  trusts o s := ¬ o.Breaches s

namespace Limits

open Contract (follows_bind follows_pure follows_perform follows_fail follows_ite)

theorem steady : limits.Steady where
  refl _ _ := Nat.le_refl _
  trans _ _ _ h h' o := (h o).trans (h' o)
  deeper _ h := ⟨⟨⟨h.items, h.fields⟩, h.closures, h.bindings⟩, fun _ => Nat.le_refl _⟩
  shallower _ h := ⟨⟨⟨h.items, h.fields⟩, h.closures, h.bindings⟩, fun _ => Nat.le_refl _⟩

section
variable {s : Store} {env : Env}

/-! ### Names -/

theorem follows_functionValue {d : Definition} (hd : d.Fits) :
    limits.Follows (fun v _ => v.Fits) (.functionValue d env) s := by
  have closure {d' : Definition} {env env' : Env}
      (h : Callable.closure d env = .closure d' env') : d'.Fits := by
    cases h
    exact hd
  obtain ⟨_ | name, parameters, rest, body⟩ := d
  · exact ⟨fun _ _ => closure, fun _ _ _ _ h => h⟩
  · exact ⟨trivial, fun inner t _ _ _ => ⟨fun _ _ => closure, fun f u _ _ hf =>
      ⟨hf, fun _ _ _ _ _ => hf⟩⟩⟩

theorem follows_declareFunction {Q : Unit → Store → Prop} {d : Definition} (hd : d.Fits)
    (hQ : ∀ t, Q () t) : limits.Follows Q (.declareFunction d env) s := by
  refine ⟨fun d' env' h => ?_, fun f t _ _ hf => ⟨trivial, fun _ u _ _ _ =>
    ⟨hf, fun _ v _ _ _ => hQ v⟩⟩⟩
  cases h
  exact hd

theorem follows_declareFunctions {body : List Stmt} (hb : FitsBody body) :
    limits.Follows (fun _ _ => True) (.declareFunctions env body) s := by
  induction body generalizing s with
  | nil => trivial
  | cons first rest ih =>
      cases first with
      | function d =>
          rw [Course.declareFunctions, follows_bind]
          exact follows_declareFunction hb.1 fun t => ih hb.2
      | _ => exact ih hb.2

/-- Parameters take arguments, and leave the others. -/
theorem follows_bindParameters {names : List String} {arguments : List Value}
    (ha : ListFits arguments) :
    limits.Follows (fun left _ => ListFits left) (.bindParameters env names arguments) s := by
  induction names generalizing arguments s with
  | nil => exact ha
  | cons name names ih =>
      have first : (arguments.headD .undefined).Fits := by
        cases arguments with
        | nil => trivial
        | cons v rest => exact ha.values v List.mem_cons_self
      exact ⟨first, fun _ t _ _ _ => ih (ha.sublist (List.tail_sublist _))⟩

theorem follows_bindRest {rest : Option String} {left : List Value} (hl : ListFits left) :
    limits.Follows (fun _ _ => True) (.bindRest env rest left) s := by
  cases rest with
  | none => trivial
  | some name =>
      exact ⟨⟨by simpa using hl.values, .inl (by simpa using hl.length)⟩,
        fun a t _ _ ha => ⟨ha, fun _ _ _ _ _ => trivial⟩⟩

theorem follows_declareVars (names : List String) :
    limits.Follows (fun _ _ => True) (.declareVars env names) s := by
  induction names generalizing s with
  | nil => trivial
  | cons name names ih => exact ⟨trivial, fun _ t _ _ _ => ih⟩

theorem follows_enter {d : Definition} {arguments : List Value} (hd : d.Fits)
    (ha : ListFits arguments) : limits.Follows (fun _ _ => True) (.enter d env arguments) s := by
  simp only [Course.enter, follows_bind, follows_pure]
  refine follows_perform trivial fun inner t _ _ _ => ?_
  refine (follows_bindParameters ha).imp fun left u hl => ?_
  refine (follows_bindRest hl).imp fun _ v _ => ?_
  exact (follows_declareVars _).imp fun _ x _ => follows_declareFunctions (Definition.fits_iff.mp hd)

theorem follows_bindRound {binding : LoopBinding} {item : Value} (hi : item.Fits) :
    limits.Follows (fun _ _ => True) (.bindRound binding item env) s := by
  obtain ⟨kind, name⟩ := binding
  rcases kind with _ | _ | _ | _
  · exact ⟨hi, fun _ _ _ _ _ => trivial⟩
  · exact ⟨trivial, fun _ _ _ _ _ => ⟨hi, fun _ _ _ _ _ => trivial⟩⟩
  · exact ⟨trivial, fun _ _ _ _ _ => ⟨hi, fun _ _ _ _ _ => trivial⟩⟩
  · exact ⟨trivial, fun _ _ _ _ _ => ⟨hi, fun _ _ _ _ _ => trivial⟩⟩

theorem follows_bindDeclared {kind : DeclKind} {name : String} {value : Option Value}
    (hv : ∀ v, value = some v → v.Fits) :
    limits.Follows (fun _ _ => True) (.bindDeclared kind name value env) s := by
  have own : (value.getD .undefined).Fits := by
    cases value with
    | none => trivial
    | some v => exact hv v rfl
  cases kind with
  | var =>
      refine ⟨trivial, fun _ t _ _ _ => ?_⟩
      cases value with
      | none => trivial
      | some v => exact ⟨hv v rfl, fun _ _ _ _ _ => trivial⟩
  | «let» | const => exact ⟨own, fun _ _ _ _ _ => trivial⟩

theorem follows_readPlace {Q : Value → Store → Prop} {place : Place} (hp : place.Fits)
    (hQ : ∀ v t, v.Fits → Q v t) : limits.Follows Q (.readPlace env place) s := by
  cases place with
  | name word => exact ⟨trivial, fun v t _ _ hv => hQ v t hv⟩
  | property base key => exact ⟨hp, fun v t _ _ hv => hQ v t hv⟩

theorem follows_writePlace {Q : Unit → Store → Prop} {place : Place} {value : Value}
    (hp : place.Fits) (hv : value.Fits) (hQ : ∀ t, Q () t) :
    limits.Follows Q (.writePlace env value place) s := by
  cases place with
  | name word => exact ⟨hv, fun _ t _ _ _ => hQ t⟩
  | property base key => exact ⟨⟨hp, hv⟩, fun _ t _ _ _ => hQ t⟩

/-! ### Expressions and calls -/

theorem follows_ofExpr {e : Expr} (h : e.Fits) :
    limits.Follows (fun v _ => v.Fits) (.ofExpr env e) s := by
  cases e with
  | number | bool | null => trivial
  | string t => exact h
  | name word => exact ⟨trivial, fun _ _ _ _ hv => hv⟩
  | array items =>
      exact ⟨h.2, fun vs t _ _ hvs => ⟨⟨by simpa using hvs.2, .inl (by simpa [hvs.1] using h.1)⟩,
        fun _ _ _ _ ha => ha⟩⟩
  | object fields =>
      exact ⟨⟨h, fun _ hf => (List.not_mem_nil hf).elim⟩, fun all t _ _ hall =>
        ⟨hall, fun _ _ _ _ ha => ha⟩⟩
  | function d => exact follows_functionValue h
  | member object key => exact ⟨h.1, fun _ _ _ _ hb => ⟨hb, fun _ _ _ _ hv => hv⟩⟩
  | index object key =>
      exact ⟨h.1, fun _ _ _ _ hb => ⟨h.2, fun _ _ _ _ _ => ⟨trivial, fun _ _ _ _ _ =>
        ⟨hb, fun _ _ _ _ hv => hv⟩⟩⟩⟩
  | call callee arguments => exact ⟨h, fun _ _ _ _ hv => hv⟩
  | unary op operand =>
      rcases typeof_name_or op operand with ⟨word, rfl, rfl⟩ | hn
      · exact ⟨trivial, fun _ _ _ _ hv => hv⟩
      · rw [Course.ofExpr]
        · exact ⟨h, fun _ _ _ _ hv => ⟨hv, fun _ _ _ _ ha => ha⟩⟩
        · exact hn
  | update increment before target =>
      simp only [Course.ofExpr, follows_bind, follows_pure]
      exact ⟨h, fun place t _ _ hplace => follows_readPlace hplace fun v u _ =>
        ⟨trivial, fun _ _ _ _ _ => follows_writePlace hplace trivial fun _ => trivial⟩⟩
  | binary op left right =>
      exact ⟨h.1, fun _ _ _ _ hv => ⟨h.2, fun _ _ _ _ hw => ⟨⟨hv, hw⟩, fun _ _ _ _ ha => ha⟩⟩⟩
  | logical op left right =>
      exact ⟨h.1, fun v t _ _ hv => follows_ite (fun _ => hv) fun _ => ⟨h.2, fun _ _ _ _ hw => hw⟩⟩
  | conditional test yes no =>
      exact ⟨h.1, fun v t _ _ _ => follows_ite (fun _ => ⟨h.2.1, fun _ _ _ _ hw => hw⟩)
        fun _ => ⟨h.2.2, fun _ _ _ _ hw => hw⟩⟩
  | assign op target value =>
      cases op with
      | none =>
          simp only [Course.ofExpr, follows_bind, follows_pure]
          exact ⟨h.1, fun place t _ _ hplace => ⟨h.2, fun v u _ _ hv =>
            follows_writePlace hplace hv fun _ => hv⟩⟩
      | some op =>
          simp only [Course.ofExpr, follows_bind, follows_pure]
          exact ⟨h.1, fun place t _ _ hplace => follows_readPlace hplace fun current u hc =>
            ⟨h.2, fun operand x _ _ ho => ⟨⟨hc, ho⟩, fun v _ _ _ hv =>
              follows_writePlace hplace hv fun _ => hv⟩⟩⟩

theorem follows_ofPlace {e : Expr} (h : e.Fits) :
    limits.Follows (fun place _ => place.Fits) (.ofPlace env e) s := by
  cases e with
  | name word => trivial
  | member object key => exact ⟨h.1, fun _ _ _ _ hb => hb⟩
  | index object key =>
      exact ⟨h.1, fun _ _ _ _ hb => ⟨h.2, fun _ _ _ _ _ => ⟨trivial, fun _ _ _ _ _ => hb⟩⟩⟩
  | _ => exact follows_fail.mpr trivial

theorem follows_callOrFail {f : Value} {arguments : List Value} {described : String}
    (ha : ListFits arguments) :
    limits.Follows (fun v _ => v.Fits) (.callOrFail f arguments described) s :=
  follows_ite (fun _ => ⟨ha, fun _ _ _ _ hv => hv⟩) fun _ => follows_fail.mpr trivial

theorem follows_ofCall {callee : Expr} {arguments : List Expr} (hc : callee.Fits)
    (hl : arguments.length ≤ maxArrayElements) (ha : FitsAll arguments) :
    limits.Follows (fun v _ => v.Fits) (.ofCall arguments env callee) s := by
  have given {vs : List Value} (h : vs.length = arguments.length ∧ ∀ v ∈ vs, v.Fits) :
      ListFits vs := ⟨h.1 ▸ hl, h.2⟩
  cases callee with
  | member object key =>
      exact ⟨hc.1, fun _ _ _ _ hr => ⟨ha, fun _ _ _ _ hvs => ⟨⟨hr, given hvs⟩,
        fun _ _ _ _ hv => hv⟩⟩⟩
  | index object key =>
      exact ⟨hc.1, fun _ _ _ _ hr => ⟨hc.2, fun _ _ _ _ _ => ⟨trivial, fun _ _ _ _ _ =>
        ⟨ha, fun _ _ _ _ hvs => ⟨⟨hr, given hvs⟩, fun _ _ _ _ hv => hv⟩⟩⟩⟩⟩
  | _ => exact ⟨hc, fun _ _ _ _ _ => ⟨ha, fun _ _ _ _ hvs => follows_callOrFail (given hvs)⟩⟩

/-- A method of a string belongs to the receiver. -/
theorem textFits_of_method {receiver : Value} {name t : String} {m : StringMethod}
    (hr : receiver.Fits) (h : Method.of? receiver name = some (.string t m)) : TextFits t := by
  cases receiver with
  | string t' =>
      obtain ⟨m', -, he⟩ := Option.map_eq_some_iff.mp h
      cases he
      exact hr
  | array a => rw [Method.of?] at h; split at h <;> cases h
  | number x => obtain ⟨m', -, he⟩ := Option.map_eq_some_iff.mp h; cases he
  | bool b => rw [Method.of?] at h; split at h <;> cases h
  | _ => cases h

theorem follows_ofMethod {described name : String} {receiver : Value} {arguments : List Value}
    (hr : receiver.Fits) (ha : ListFits arguments) :
    limits.Follows (fun v _ => v.Fits) (.ofMethod described receiver name arguments) s := by
  unfold Course.ofMethod
  split
  · exact ⟨ha, fun _ _ _ _ hv => hv⟩
  · rename_i t m hm
    exact ⟨⟨textFits_of_method hr hm, ha⟩, fun _ _ _ _ hv => hv⟩
  · exact ⟨ha, fun _ _ _ _ hv => hv⟩
  · rename_i b _
    cases b <;> exact (show TextFits _ by decide)
  · rename_i a m _
    refine ⟨trivial, fun seen t hit _ ht => ?_⟩
    obtain rfl : seen = t := ht
    have hentries := fits_entries hit.toHeapFits (.array a)
    have hitems : ListFits ((seen.entries (.array a)).map Prod.fst) := by
      refine ⟨?_, fun v hv => ?_⟩
      · rw [List.length_map, length_entries]
        exact hit.size_items a
      · obtain ⟨e, he, rfl⟩ := List.mem_map.mp hv
        exact (hentries e he).1
    refine ⟨⟨hr, hentries, fun _ hv => (List.not_mem_nil hv).elim⟩, fun returned u _ _ hreturned =>
      ⟨⟨hitems, by simpa using hreturned.1, hreturned.2⟩, fun _ _ _ _ hv => hv⟩⟩
  · exact ⟨hr, fun _ _ _ _ _ => follows_callOrFail ha⟩

/-- What the functions of the language and of the script do when they are called. -/
theorem follows_ofCallable {r : Ref} {arguments : List Value} (hs : s.Fits)
    (ha : ListFits arguments) :
    limits.Follows (fun v _ => v.Fits) (.ofCallable arguments s (s.callable r)) s := by
  have whole := fits_argument ha.values 0
  have entries := fits_entries hs.toHeapFits (argument arguments 0)
  rcases hc : s.callable r with ⟨d, env⟩ | m | _ | _
  · exact ⟨⟨hs.closures d env (Store.mem_functions hc), ha⟩, fun _ _ _ _ hv => hv⟩
  · exact ⟨ha, fun _ _ _ _ hv => hv⟩
  · exact ⟨⟨whole, entries, fun _ hv => (List.not_mem_nil hv).elim⟩, fun _ _ _ _ _ => whole⟩
  · refine ⟨⟨whole, entries, fun _ hv => (List.not_mem_nil hv).elim⟩, fun returned t _ g hr =>
      ⟨⟨by simpa using hr.2, ?_⟩, fun _ _ _ _ hv => hv⟩⟩
    -- as many values as the object that is visited has fields, which are no fewer by now
    have hsize : returned.toArray.size = (s.entries (argument arguments 0)).length := by
      simpa using hr.1
    rw [hsize, length_entries]
    cases argument arguments 0 with
    | array a => exact .inl (hs.size_items a)
    | object o => exact .inr ⟨o, g o⟩
    | _ => exact .inl (Nat.zero_le _)

/-! ### Statements -/

theorem follows_returned {c : Completion} (hc : c.Fits) :
    limits.Follows (fun v _ => v.Fits) (.returned c) s := by
  cases c with
  | «return» v => exact hc
  | _ => trivial

theorem follows_nextRound {again : Course Completion} {c : Completion} (hc : c.Fits)
    (h : limits.Follows (fun c _ => c.Fits) again s) :
    limits.Follows (fun c _ => c.Fits) (.nextRound again c) s := by
  cases c with
  | normal | «continue» => exact h
  | «break» => trivial
  | «return» v => exact hc

theorem follows_ofOption {e : Option Expr} (h : FitsOption e) :
    limits.Follows (fun value _ => ∀ v, value = some v → v.Fits) (.ofOption env e) s := by
  cases e with
  | none => exact nofun
  | some e =>
      refine ⟨h, fun v t _ _ hv w hw => ?_⟩
      cases hw
      exact hv

theorem follows_ofStmt {stmt : Stmt} (h : stmt.Fits) :
    limits.Follows (fun c _ => c.Fits) (.ofStmt env stmt) s := by
  cases stmt with
  | expr e => exact ⟨h, fun _ _ _ _ _ => trivial⟩
  | declare kind bindings => exact ⟨h, fun _ _ _ _ _ => trivial⟩
  | function d =>
      simp only [Course.ofStmt, follows_bind, follows_pure]
      exact follows_declareFunction h fun _ => trivial
  | block body => exact ⟨trivial, fun _ _ _ _ _ => ⟨h, fun _ _ _ _ hc => hc⟩⟩
  | branch test yes no =>
      refine ⟨h.1, fun v t _ _ _ => follows_ite (fun _ => ⟨h.2.1, fun _ _ _ _ hc => hc⟩) fun _ => ?_⟩
      cases no with
      | none => trivial
      | some stmt => exact ⟨h.2.2, fun _ _ _ _ hc => hc⟩
  | loop init test update body =>
      refine ⟨trivial, fun inner t _ _ _ => ?_⟩
      have parts : FitsOption test ∧ FitsOption update ∧ body.Fits := h.2
      cases init with
      | none => exact ⟨parts, fun _ _ _ _ hc => hc⟩
      | some first => exact ⟨h.1, fun _ _ _ _ _ => ⟨parts, fun _ _ _ _ hc => hc⟩⟩
  | forIn binding subject body =>
      refine ⟨h.1, fun v t _ _ hv => ⟨trivial, fun seen u hiu _ hu => ?_⟩⟩
      obtain rfl : seen = u := hu
      exact ⟨⟨fits_loopKeys hiu.toHeapFits hv, h.2⟩, fun _ _ _ _ hc => hc⟩
  | forOf binding subject body =>
      exact ⟨h.1, fun v t _ _ hv => ⟨hv, fun items u _ _ hitems =>
        ⟨⟨hitems, h.2⟩, fun _ _ _ _ hc => hc⟩⟩⟩
  | whileLoop test body => exact ⟨⟨h.1, trivial, h.2⟩, fun _ _ _ _ hc => hc⟩
  | «break» | «continue» | empty => trivial
  | «return» value =>
      cases value with
      | none => trivial
      | some e => exact ⟨h, fun _ _ _ _ hv => hv⟩

/-! ### Jobs -/

theorem follows_execLoop {test update : Option Expr} {body : Stmt}
    (h : FitsOption test ∧ FitsOption update ∧ body.Fits) :
    limits.Follows (fun c _ => c.Fits) (.ofJob (.execLoop test update body env)) s :=
  ⟨h.1, fun _ _ _ _ _ => follows_ite (fun _ => ⟨h.2.2, fun _ _ _ _ hc => follows_nextRound hc
    ⟨h.2.1, fun _ _ _ _ _ => ⟨h, fun _ _ _ _ hc => hc⟩⟩⟩) fun _ => trivial⟩

theorem follows_execEach {binding : LoopBinding} {items : List Value} {body : Stmt}
    (hi : ∀ v ∈ items, v.Fits) (hb : body.Fits) :
    limits.Follows (fun c _ => c.Fits) (.ofJob (.execEach binding items body env)) s := by
  cases items with
  | nil => trivial
  | cons item rest =>
      refine follows_bind.mpr ((follows_bindRound (hi item List.mem_cons_self)).imp fun _ _ _ => ?_)
      exact ⟨hb, fun _ _ _ _ hc => follows_nextRound hc
        ⟨⟨fun v hv => hi v (List.mem_cons_of_mem _ hv), hb⟩, fun _ _ _ _ hc => hc⟩⟩

/-- Every job keeps to the limits if its parts do. -/
theorem follows_ofJob {j : Job} (h : j.Fits) :
    limits.Follows (fun a _ => j.Gives a) (.ofJob j) s := by
  cases j with
  | eval e env => exact follows_ofExpr h
  | evalAll es env =>
      cases es with
      | nil => exact ⟨rfl, fun _ hv => (List.not_mem_nil hv).elim⟩
      | cons e rest =>
          exact ⟨h.1, fun v _ _ _ hv => ⟨h.2, fun vs _ _ _ hvs =>
            ⟨congrArg (· + 1) hvs.1, List.forall_mem_cons.mpr ⟨hv, hvs.2⟩⟩⟩⟩
  | evalFields fields done env =>
      rcases fields with _ | ⟨⟨key, e⟩, rest⟩
      · exact h.2
      · exact ⟨h.1.2.1, fun v _ _ _ hv => ⟨⟨h.1.2.2, h.2.put h.1.1 hv⟩, fun _ _ _ _ ha => ha⟩⟩
  | evalPlace e env => exact follows_ofPlace h
  | evalCall callee arguments env => exact follows_ofCall h.1 h.2.1 h.2.2
  | callMethod described receiver name arguments => exact follows_ofMethod h.1 h.2
  | visit f whole entries done =>
      rcases entries with _ | ⟨⟨v, key⟩, rest⟩
      · exact ⟨by simp, fun v hv => h.2.2 v (List.mem_reverse.mp hv)⟩
      · obtain ⟨hwhole, hentries, hdone⟩ := h
        have first := hentries _ List.mem_cons_self
        have arguments : ListFits [v, key, whole] :=
          ⟨show 3 ≤ maxArrayElements by decide, by simpa using ⟨first.1, first.2, hwhole⟩⟩
        refine ⟨arguments, fun r _ _ _ hr =>
          ⟨⟨hwhole, fun e he => hentries e (List.mem_cons_of_mem _ he),
            List.forall_mem_cons.mpr ⟨hr, hdone⟩⟩, fun vs _ _ _ hvs => ⟨?_, hvs.2⟩⟩⟩
        rw [hvs.1, List.length_cons, List.length_cons]
        omega
  | call f arguments =>
      refine ⟨trivial, fun seen t hit _ ht => ?_⟩
      obtain rfl : seen = t := ht
      cases f with
      | function r => exact follows_ofCallable hit h
      | _ => exact follows_fail.mpr trivial
  | invoke d env arguments =>
      refine ⟨trivial, fun _ t _ _ _ => follows_ite (fun _ => follows_fail.mpr trivial) fun _ => ?_⟩
      refine follows_bind.mpr ((follows_enter h.1 h.2).imp fun inner u _ => ?_)
      exact ⟨Definition.fits_iff.mp h.1, fun c _ _ _ hc => follows_returned hc⟩
  | exec stmt env => exact follows_ofStmt h
  | execAll body env =>
      cases body with
      | nil => trivial
      | cons first rest =>
          refine ⟨h.1, fun c t _ _ hc => ?_⟩
          cases c with
          | normal => exact ⟨h.2, fun _ _ _ _ hc => hc⟩
          | _ => exact hc
  | execBindings kind bindings env =>
      rcases bindings with _ | ⟨⟨name, e⟩, rest⟩
      · trivial
      · refine follows_bind.mpr ((follows_ofOption h.1).imp fun value _ hv => ?_)
        exact follows_bind.mpr ((follows_bindDeclared hv).imp fun _ _ _ =>
          ⟨h.2, fun _ _ _ _ _ => trivial⟩)
  | execLoop test update body env => exact follows_execLoop h
  | evalTest test env => exact follows_bind.mpr ((follows_ofOption h).imp fun _ _ _ => trivial)
  | evalUpdate update env => exact follows_bind.mpr ((follows_ofOption h).imp fun _ _ _ => trivial)
  | execEach binding items body env => exact follows_execEach h.1 h.2

end

/-- **Runs keep to the limits** up to the first breach. -/
theorem sound : limits.Sound where
  toSteady := steady
  op _ _ _ _ _ _ ht hr :=
    have kept := not_not.mp fun hbreach => ht ⟨_, _, hr, hbreach⟩
    ⟨kept.1, Op.fieldsGrow hr, kept.2⟩
  course _ _ _ h := follows_ofJob h

end Limits

/-! ### Data -/

mutual

/-- Documents whose strings, keys and arrays are within the limits. -/
def DocumentFits : Json.Document → Prop
  | .null => True
  | .bool _ => True
  | .number _ => True
  | .string t => TextFits t
  | .array items => items.length ≤ maxArrayElements ∧ DocumentsFit items
  | .object members => MembersFit members

/-- Lists of documents that fit. -/
def DocumentsFit : List Json.Document → Prop
  | [] => True
  | item :: rest => DocumentFits item ∧ DocumentsFit rest

/-- Members that fit. -/
def MembersFit : List (String × Json.Document) → Prop
  | [] => True
  | (key, item) :: rest => TextFits key ∧ DocumentFits item ∧ MembersFit rest

end

theorem fits_foldl_put {members all : List (String × Value)} (h : Fields.Fits members)
    (ha : Fields.Fits all) :
    Fields.Fits (members.foldl (fun all (key, v) => Fields.put all key v) all) := by
  induction members generalizing all with
  | nil => exact ha
  | cons first rest ih =>
      exact ih (fun field hf => h field (List.mem_cons_of_mem _ hf))
        (ha.put (h first List.mem_cons_self).1 (h first List.mem_cons_self).2)

mutual

theorem fitsRun_importDocument : ∀ {data : Json.Document} {s : Store}, DocumentFits data →
    s.HeapFits → FitsRun Value.Fits (importDocument data) s
  | .null, _, _, hs => fitsRun_pure hs trivial
  | .bool _, _, _, hs => fitsRun_pure hs trivial
  | .number _, _, _, hs => fitsRun_pure hs trivial
  | .string _, _, h, hs => fitsRun_pure hs h
  | .array items, _, h, hs => by
      rw [importDocument]
      refine (fitsRun_importItems h.2 hs).bind fun vs t ht hvs => fitsRun_newArray ht ⟨?_, ?_⟩
      · simpa [hvs.1] using h.1
      · simpa using hvs.2
  | .object members, _, h, hs => by
      rw [importDocument]
      exact (fitsRun_importMembers h hs).bind fun fields t ht hf =>
        fitsRun_newObject ht (fits_foldl_put hf fun _ hm => (List.not_mem_nil hm).elim)

theorem fitsRun_importItems : ∀ {items : List Json.Document} {s : Store}, DocumentsFit items →
    s.HeapFits → FitsRun (fun vs => vs.length = items.length ∧ ∀ v ∈ vs, v.Fits) (importItems items) s
  | [], _, _, hs => fitsRun_pure hs ⟨rfl, fun _ hv => (List.not_mem_nil hv).elim⟩
  | item :: rest, _, h, hs => by
      rw [importItems]
      exact (fitsRun_importDocument h.1 hs).bind fun v t ht hv =>
        (fitsRun_importItems h.2 ht).bind fun vs u hu hvs =>
          fitsRun_pure hu ⟨congrArg (· + 1) hvs.1, List.forall_mem_cons.mpr ⟨hv, hvs.2⟩⟩

theorem fitsRun_importMembers : ∀ {members : List (String × Json.Document)} {s : Store},
    MembersFit members → s.HeapFits → FitsRun Fields.Fits (importMembers members) s
  | [], _, _, hs => fitsRun_pure hs fun _ hv => (List.not_mem_nil hv).elim
  | (key, item) :: rest, _, h, hs => by
      rw [importMembers]
      exact (fitsRun_importDocument h.2.1 hs).bind fun v t ht hv =>
        (fitsRun_importMembers h.2.2 ht).bind fun fields u hu hf =>
          fitsRun_pure hu (List.forall_mem_cons.mpr ⟨⟨h.1, hv⟩, hf⟩)

end

theorem heapFits_initial : Store.initial.HeapFits where
  items _ := ⟨Nat.zero_le _, fun _ hv => (List.not_mem_nil hv).elim⟩
  fields o := by
    cases o with
    | succ o => exact fun _ hf => (List.not_mem_nil hf).elim
    | zero =>
        intro field hf
        have hf : field ∈ helperFields := hf
        simp only [helperFields, List.mem_cons, List.not_mem_nil, or_false] at hf
        rcases hf with rfl | rfl | rfl | rfl | rfl | rfl | rfl | rfl <;> exact ⟨by decide, trivial⟩

theorem fit_globalScope : Scopes.Fit #[globalScope] := by
  intro r name v hv
  cases r with
  | succ r => cases hv
  | zero =>
      have hv : globalScope.lookup name = some v := hv
      obtain ⟨l, r, hsplit, -⟩ := List.lookup_eq_some_iff.mp hv
      have hm : (name, v) ∈ globalScope := hsplit ▸ by simp
      simp only [globalScope, List.mem_cons, Prod.mk.injEq, List.not_mem_nil, or_false] at hm
      rcases hm with ⟨-, rfl⟩ | ⟨-, rfl⟩ | ⟨-, rfl⟩ | ⟨-, rfl⟩ | ⟨-, rfl⟩ | ⟨-, rfl⟩ | ⟨-, rfl⟩ <;>
        trivial

/-- **The store and the value that data is made to**, if the data fits. -/
theorem fits_importDocument {data : Json.Document} {v : Value} {s : Store} (hdata : DocumentFits data)
    (h : importDocument data Store.initial = .ok v s) : s.Fits ∧ v.Fits := by
  obtain ⟨heap, hv⟩ := fitsRun_importDocument hdata heapFits_initial v s h
  obtain ⟨hscopes, hfunctions, -⟩ := importDocument_initial h
  refine ⟨⟨heap, fun d env hm => absurd (hfunctions ▸ hm) no_closure_initial, ?_⟩, hv⟩
  rw [hscopes]
  exact fit_globalScope

/-! ### Calls from outside -/

/-- Entries within the limits: the store that is found, and what is worked on. -/
def Entry.Fits : Entry → Prop
  | .op o s => s.Fits ∧ o.Fits s
  | .job _ j s => s.Fits ∧ j.Fits

/-- Operations that leave or give something beyond the limits. -/
def Entry.Breaches : Entry → Prop
  | .op o s => o.Breaches s
  | .job _ _ _ => False

/-- Operations that ask for no limit. -/
def Entry.Unguarded : Entry → Prop
  | .op o _ => o.Unguarded
  | .job _ _ _ => False

/-- **The limits of strings and arrays.**  In a call of a function with data, both within the limits,
all states and values are within the limits up to the first operation that breaches them, and that is
one that asks for no limit.  Those that ask for one fail just where it is exceeded, over a range. -/
theorem Definition.within_limits {d : Definition} {data : Json.Document} (hd : d.Fits)
    (hdata : DocumentFits data) (steps : Nat) :
    Lasting (fun e => e.Fits ∧ (e.Breaches → e.Unguarded)) (fun e => ¬ e.Breaches)
        (d.log steps data) ∧
      ∀ (o : Op) (s : Store) (g : Growth), s.Fits → o.growth? s = some g → g.Decides o.run s := by
  refine ⟨?_, fun o s g hs => Op.run_growth hs.toHeapFits⟩
  rw [Definition.log, Script.after]
  cases himport : importDocument data Store.initial with
  | error e t => trivial
  | ok v s =>
      obtain ⟨hs, hv⟩ := fits_importDocument hdata himport
      have arguments : ListFits [v, helper] :=
        ⟨show 2 ≤ maxArrayElements by decide, by simpa using ⟨hv, trivial⟩⟩
      have lasting := Limits.sound.log (n := steps) (j := .invoke d globalEnv [v, helper]) hs
        ⟨hd, arguments⟩
      refine lasting.imp (fun e he => ?_) fun e he => ?_
      · cases e with
        | op o s => exact ⟨he, Op.unguarded_of_breaches he.1 he.2⟩
        | job n j s => exact ⟨he, False.elim⟩
      · cases e with
        | op o s => exact he
        | job n j s => trivial

/-- The function of `obj` with the body `return "ab"+obj`. -/
def prefixes : Definition :=
  ⟨none, ["obj"], none, [.return (some (.binary .add (.string "ab") (.name "obj")))]⟩

theorem Definition.within_limits_prefixes : prefixes.Fits ∧ DocumentFits (.array [.string "c"]) ∧
    Lasting (fun e => e.Fits ∧ (e.Breaches → e.Unguarded)) (fun e => ¬ e.Breaches)
      (prefixes.log 9 (.array [.string "c"])) ∧
    (Op.binary .add (.string "ab") (.string "c")).growth? Store.initial =
      some ⟨3, maxStringBytes, .stringLength⟩ ∧
    Growth.Decides ⟨3, maxStringBytes, .stringLength⟩
      (Op.binary .add (.string "ab") (.string "c")).run Store.initial := by
  have own : prefixes.Fits := by
    simp only [prefixes, Definition.Fits, FitsBody, Stmt.Fits, FitsOption, Expr.Fits]
    decide
  have data : DocumentFits (.array [.string "c"]) := by
    simp only [DocumentFits, DocumentsFit]
    decide
  obtain ⟨lasting, decides⟩ := Definition.within_limits own data 9
  refine ⟨own, data, lasting, rfl, decides _ _ _ ?_ rfl⟩
  exact ⟨heapFits_initial, fun d env hm => absurd hm no_closure_initial, fit_globalScope⟩

end Stencil.Script
