import Stencil.Proofs.Alike.Heap
import Stencil.Proofs.Jobs.Log

/-!
# Alike — operations, jobs and courses

What runs consist of, side by side: `OpAlike`, `JobAlike` and `CourseAlike` pair the operations, the
jobs and the courses of two runs, and say what their results are to one another.

* `OpAlike.run`: operations that are alike end alike, unless two functions are compared.
* `JobAlike.course`: jobs that are alike have courses that are alike.
* `JobAlike.run`: so they end alike, if no two functions are compared in the first run.
-/

namespace Stencil.Script

/-! ### Names -/

namespace ScopesAlike
variable {F F' : Functions} {σ τ : Scopes}

theorem opened (h : ScopesAlike F F' σ τ) : ScopesAlike F F' σ.opened τ.opened where
  size := by rw [Scopes.size_opened, Scopes.size_opened, h.size]
  get? r n := by
    rw [Scopes.scope_opened, Scopes.scope_opened]
    exact h.get? r n

theorem put (h : ScopesAlike F F' σ τ) (r : Ref) (n : String) {v w : Variable}
    (hv : v.Alike F F' w) : ScopesAlike F F' (σ.put r n v) (τ.put r n w) where
  size := by rw [Scopes.size_put, Scopes.size_put, h.size]
  get? q word := by
    rw [Scopes.scope_put, Scopes.scope_put, h.size]
    split
    · rw [Scope.get?_put, Scope.get?_put]
      split
      · exact .some hv
      · exact h.get? q word
    · exact h.get? q word

/-- A name is found in the same scope on both sides. -/
theorem find? (h : ScopesAlike F F' σ τ) (n : String) :
    ∀ env : Env, Option.Rel (fun p q : Ref × Variable => p.1 = q.1 ∧ p.2.Alike F F' q.2)
      (σ.find? n env) (τ.find? n env)
  | [] => .none
  | frame :: outer => by
      have hf := h.get? frame.scope n
      rw [Scopes.find?_cons, Scopes.find?_cons]
      generalize (σ.scope frame.scope).get? n = v at hf
      generalize (τ.scope frame.scope).get? n = w at hf
      cases hf with
      | some hv => exact .some ⟨rfl, hv⟩
      | none => exact find? h n outer

end ScopesAlike

section
variable {s s' : Store} (l : s.Alike s') (env : Env) (name : String)
include l

theorem Store.Alike.later_withScopes {σ τ : Scopes}
    (h : ScopesAlike s.functions s'.functions σ τ) :
    Later s s' (s.withScopes σ) (s'.withScopes τ) :=
  ⟨{ l with scopes := h }, .refl _, .refl _⟩

theorem alike_lookUp : RunsAlike .value (lookUp env name) (lookUp env name) s s' := by
  have h := l.scopes.find? name env
  unfold RunsAlike
  rw [lookUp_run, lookUp_run]
  generalize Scopes.find? s.scopes name env = p at h
  generalize Scopes.find? s'.scopes name env = q at h
  cases h with
  | some hv => exact .ok (.refl l) hv.2.1
  | none => exact .fault _ _ _

theorem alike_typeOfName :
    RunsAlike .value (typeOfName env name) (typeOfName env name) s s' := by
  have h := l.scopes.find? name env
  unfold RunsAlike
  rw [typeOfName_run, typeOfName_run]
  generalize Scopes.find? s.scopes name env = p at h
  generalize Scopes.find? s'.scopes name env = q at h
  cases h with
  | some hv => exact .ok (.refl l) (.of_string hv.2.1.typeName)
  | none => exact .ok (.refl l) (.string _)

theorem alike_newScope (ofFunction : Bool) :
    RunsAlike .same (newScope ofFunction env) (newScope ofFunction env) s s' := by
  unfold RunsAlike
  rw [newScope_run, newScope_run]
  exact .ok (l.later_withScopes l.scopes.opened)
    (by rw [show Array.size s.scopes = Array.size s'.scopes from l.scopes.size])

theorem alike_declareVar : RunsAlike .unit (declareVar env name) (declareVar env name) s s' := by
  have h := l.scopes.get? (varScope env) name
  unfold RunsAlike
  rw [declareVar_run, declareVar_run]
  generalize (Scopes.scope s.scopes (varScope env)).get? name = p at h
  generalize (Scopes.scope s'.scopes (varScope env)).get? name = q at h
  cases h with
  | some _ => exact .ok (.refl l) trivial
  | none => exact .ok (l.later_withScopes (l.scopes.put _ _ ⟨.undefined, rfl⟩)) trivial

variable {v w : Value} (hv : Likeness.value v w s s')
include hv

theorem alike_define (mutable : Bool) :
    RunsAlike .unit (define env name v mutable) (define env name w mutable) s s' :=
  .ok (l.later_withScopes (l.scopes.put _ _ ⟨hv, rfl⟩)) trivial

theorem alike_declare (mutable : Bool) :
    RunsAlike .unit (declare env name v mutable) (declare env name w mutable) s s' := by
  have h := l.scopes.get? (ownScope env) name
  unfold RunsAlike
  rw [declare_run, declare_run]
  generalize (Scopes.scope s.scopes (ownScope env)).get? name = p at h
  generalize (Scopes.scope s'.scopes (ownScope env)).get? name = q at h
  cases h with
  | some _ => exact .fault _ _ _
  | none => exact .ok (l.later_withScopes (l.scopes.put _ _ ⟨hv, rfl⟩)) trivial

theorem alike_assignName :
    RunsAlike .unit (assignName env name v) (assignName env name w) s s' := by
  have h := l.scopes.find? name env
  unfold RunsAlike
  rw [assignName_run, assignName_run]
  generalize Scopes.find? s.scopes name env = p at h
  generalize Scopes.find? s'.scopes name env = q at h
  cases h with
  | none => exact .fault _ _ _
  | @some p q hp =>
      obtain ⟨r, x⟩ := p
      obtain ⟨r', y⟩ := q
      obtain ⟨hr, hx⟩ := hp
      obtain rfl : r = r' := hr
      dsimp only
      rw [← hx.2]
      split
      · exact .ok (l.later_withScopes (l.scopes.put _ _ ⟨hv, rfl⟩)) trivial
      · exact .fault _ _ _

end

/-! ### Operations -/

/-- **Whether an operation compares two functions**: by an operator, or to find one in an array. -/
def Op.comparesFunctions (s : Store) : Op → Bool
  | .binary op v w => op.compares && (v.isFunction && w.isFunction)
  | .arrayMethod m a arguments => m.seeksFunction (s.items a) arguments
  | _ => false

/-- Whether two functions are compared at an entry of a log. -/
def Entry.comparesFunctions : Entry → Bool
  | .op o s => o.comparesFunctions s
  | .job _ _ _ => false

/-- **Operations that are alike**, and what their results are to one another. -/
inductive OpAlike (s s' : Store) : (o o' : Op) → Likeness o.Result o'.Result → Prop where
  | look : OpAlike s s' .look .look .stores
  | fail (f : Fault) : OpAlike s s' (.fail f) (.fail f) .same
  | newArray {xs ys : Array Value} (h : Likeness.values xs.toList ys.toList s s') :
    OpAlike s s' (.newArray xs) (.newArray ys) .value
  | newObject {fields fields' : Fields} (h : Likeness.fields fields fields' s s') :
    OpAlike s s' (.newObject fields) (.newObject fields') .value
  | newFunction (c : Callable) : OpAlike s s' (.newFunction c) (.newFunction c) .value
  | newScope (ofFunction : Bool) (env : Env) :
    OpAlike s s' (.newScope ofFunction env) (.newScope ofFunction env) .same
  | define (env : Env) (name : String) {v w : Value} (h : Likeness.value v w s s')
    (mutable : Bool) : OpAlike s s' (.define env name v mutable) (.define env name w mutable) .unit
  | declare (env : Env) (name : String) {v w : Value} (h : Likeness.value v w s s')
    (mutable : Bool) : OpAlike s s' (.declare env name v mutable) (.declare env name w mutable) .unit
  | declareVar (env : Env) (name : String) :
    OpAlike s s' (.declareVar env name) (.declareVar env name) .unit
  | lookUp (env : Env) (name : String) : OpAlike s s' (.lookUp env name) (.lookUp env name) .value
  | typeOfName (env : Env) (name : String) :
    OpAlike s s' (.typeOfName env name) (.typeOfName env name) .value
  | assign (env : Env) (name : String) {v w : Value} (h : Likeness.value v w s s') :
    OpAlike s s' (.assign env name v) (.assign env name w) .unit
  | getProperty {v w : Value} (h : Likeness.value v w s s') (key : String) :
    OpAlike s s' (.getProperty v key) (.getProperty w key) .value
  | setProperty {v w x y : Value} (h : Likeness.value v w s s') (key : String)
    (hx : Likeness.value x y s s') : OpAlike s s' (.setProperty v key x) (.setProperty w key y) .unit
  | unary (op : UnaryOp) {v w : Value} (h : Likeness.value v w s s') :
    OpAlike s s' (.unary op v) (.unary op w) .value
  | binary (op : BinaryOp) {v w v' w' : Value} (h : Likeness.value v w s s')
    (h' : Likeness.value v' w' s s') : OpAlike s s' (.binary op v v') (.binary op w w') .value
  | loopItems {v w : Value} (h : Likeness.value v w s s') :
    OpAlike s s' (.loopItems v) (.loopItems w) .values
  | arrayMethod (m : ArrayMethod) (a : Ref) {arguments arguments' : List Value}
    (h : Likeness.values arguments arguments' s s') :
    OpAlike s s' (.arrayMethod m a arguments) (.arrayMethod m a arguments') .value
  | stringMethod (m : StringMethod) (t : String) {arguments arguments' : List Value}
    (h : Likeness.values arguments arguments' s s') :
    OpAlike s s' (.stringMethod m t arguments) (.stringMethod m t arguments') .value
  | numberMethod (m : NumberMethod) (x : Float) {arguments arguments' : List Value}
    (h : Likeness.values arguments arguments' s s') :
    OpAlike s s' (.numberMethod m x arguments) (.numberMethod m x arguments') .value
  | plain (n : PlainNative) {arguments arguments' : List Value}
    (h : Likeness.values arguments arguments' s s') :
    OpAlike s s' (.plain n arguments) (.plain n arguments') .value
  | collect (m : ArrayVisit) {items items' returned returned' : List Value}
    (hi : Likeness.values items items' s s') (hr : Likeness.values returned returned' s s') :
    OpAlike s s' (.collect m items returned) (.collect m items' returned') .value

/-- **Operations that are alike end alike**, unless two functions are compared. -/
theorem OpAlike.run {s s' : Store} {o o' : Op} {P : Likeness o.Result o'.Result}
    (h : OpAlike s s' o o' P) (l : s.Alike s') (hf : o.comparesFunctions s = false) :
    RunsAlike P o.run o'.run s s' := by
  cases h with
  | look => exact .ok (.refl l) ⟨rfl, rfl⟩
  | fail f => exact .fault _ _ _
  | newArray h => exact alike_newArray l h
  | newObject h => exact alike_newObject l h
  | newFunction c => exact alike_newFunction l c
  | newScope b env => exact alike_newScope l env b
  | define env name h mutable => exact alike_define l env name h mutable
  | declare env name h mutable => exact alike_declare l env name h mutable
  | declareVar env name => exact alike_declareVar l env name
  | lookUp env name => exact alike_lookUp l env name
  | typeOfName env name => exact alike_typeOfName l env name
  | assign env name h => exact alike_assignName l env name h
  | getProperty h key => exact alike_getProperty l h key
  | setProperty h key hx => exact alike_setProperty l h key hx
  | unary op h => exact alike_applyUnary l op h
  | binary op h h' => exact alike_operate l op h h' hf
  | loopItems h => exact alike_loopItems l h
  | arrayMethod m a h => exact alike_arrayMethod l m a h hf
  | stringMethod m t h => exact alike_stringMethod l m t h
  | numberMethod m x h => exact alike_numberMethod l m x h
  | plain n h => exact alike_plainNative l n h
  | collect m hi hr => exact alike_collect l m hi hr

/-! ### Jobs -/

/-- Targets of an assignment that are alike. -/
inductive Place.Alike (F F' : Functions) : Place → Place → Prop where
  | name (word : String) : Alike F F' (.name word) (.name word)
  | property {v w : Value} (h : Value.Alike F F' v w) (key : String) :
    Alike F F' (.property v key) (.property w key)

/-- Ends of statements that are alike. -/
inductive Completion.Alike (F F' : Functions) : Completion → Completion → Prop where
  | normal : Alike F F' .normal .normal
  | break : Alike F F' .break .break
  | continue : Alike F F' .continue .continue
  | return {v w : Value} (h : Value.Alike F F' v w) : Alike F F' (.return v) (.return w)

namespace Likeness

/-- Targets of an assignment that are alike. -/
abbrev place : Likeness Place Place :=
  fun p q s s' => Place.Alike s.functions s'.functions p q

/-- Ends of statements that are alike. -/
abbrev completion : Likeness Completion Completion :=
  fun c c' s s' => Completion.Alike s.functions s'.functions c c'

/-- Values that are both absent, or alike. -/
abbrev option : Likeness (Option Value) (Option Value) :=
  fun v w s s' => Option.Rel (Value.Alike s.functions s'.functions) v w

end Likeness

theorem Later.place {s s' t t' : Store} (h : Later s s' t t') {p q : Place}
    (hp : Likeness.place p q s s') : Likeness.place p q t t' := by
  cases hp with
  | name word => exact .name word
  | property hv key => exact .property (h.value hv) key

/-- **Jobs that are alike**: the same part of a script, with values that are alike. -/
inductive JobAlike (s s' : Store) : (j j' : Job) → Likeness j.Result j'.Result → Prop where
  | eval (e : Expr) (env : Env) : JobAlike s s' (.eval e env) (.eval e env) .value
  | evalAll (es : List Expr) (env : Env) : JobAlike s s' (.evalAll es env) (.evalAll es env) .values
  | evalFields (fields : List (String × Expr)) {done done' : Fields}
    (h : Likeness.fields done done' s s') (env : Env) :
    JobAlike s s' (.evalFields fields done env) (.evalFields fields done' env) .fields
  | evalPlace (e : Expr) (env : Env) : JobAlike s s' (.evalPlace e env) (.evalPlace e env) .place
  | evalCall (callee : Expr) (arguments : List Expr) (env : Env) :
    JobAlike s s' (.evalCall callee arguments env) (.evalCall callee arguments env) .value
  | callMethod (described : String) {receiver receiver' : Value}
    (hr : Likeness.value receiver receiver' s s') (name : String) {arguments arguments' : List Value}
    (ha : Likeness.values arguments arguments' s s') :
    JobAlike s s' (.callMethod described receiver name arguments)
      (.callMethod described receiver' name arguments') .value
  | visit {f f' whole whole' : Value} {entries entries' : List (Value × Value)}
    {done done' : List Value} (hf : Likeness.value f f' s s') (hw : Likeness.value whole whole' s s')
    (he : EntriesAlike s.functions s'.functions entries entries')
    (hd : Likeness.values done done' s s') :
    JobAlike s s' (.visit f whole entries done) (.visit f' whole' entries' done') .values
  | call {f f' : Value} (hf : Likeness.value f f' s s') {arguments arguments' : List Value}
    (ha : Likeness.values arguments arguments' s s') :
    JobAlike s s' (.call f arguments) (.call f' arguments') .value
  | invoke (d : Definition) (env : Env) {arguments arguments' : List Value}
    (ha : Likeness.values arguments arguments' s s') :
    JobAlike s s' (.invoke d env arguments) (.invoke d env arguments') .value
  | exec (stmt : Stmt) (env : Env) : JobAlike s s' (.exec stmt env) (.exec stmt env) .completion
  | execAll (body : List Stmt) (env : Env) :
    JobAlike s s' (.execAll body env) (.execAll body env) .completion
  | execBindings (kind : DeclKind) (bindings : List (String × Option Expr)) (env : Env) :
    JobAlike s s' (.execBindings kind bindings env) (.execBindings kind bindings env) .unit
  | execLoop (test update : Option Expr) (body : Stmt) (env : Env) :
    JobAlike s s' (.execLoop test update body env) (.execLoop test update body env) .completion
  | evalTest (test : Option Expr) (env : Env) :
    JobAlike s s' (.evalTest test env) (.evalTest test env) .same
  | evalUpdate (update : Option Expr) (env : Env) :
    JobAlike s s' (.evalUpdate update env) (.evalUpdate update env) .unit
  | execEach (binding : LoopBinding) {items items' : List Value}
    (h : Likeness.values items items' s s') (body : Stmt) (env : Env) :
    JobAlike s s' (.execEach binding items body env) (.execEach binding items' body env) .completion

/-! ### Courses -/

/-- **Courses that are alike**: step by step, whatever the results are, as long as these are what they
should be to one another. -/
inductive CourseAlike {α β : Type} (Q : Likeness α β) :
    Course α → Course β → Store → Store → Prop where
  | ends {a : α} {b : β} {s s' : Store} (h : Q a b s s') : CourseAlike Q (.ends a) (.ends b) s s'
  | step {o o' : Op} {P : Likeness o.Result o'.Result} {next : o.Result → Course α}
    {next' : o'.Result → Course β} {s s' : Store} (ho : OpAlike s s' o o' P)
    (h : ∀ a b t t', Later s s' t t' → P a b t t' → CourseAlike Q (next a) (next' b) t t') :
    CourseAlike Q (.step o next) (.step o' next') s s'
  | part {j j' : Job} {P : Likeness j.Result j'.Result} {next : j.Result → Course α}
    {next' : j'.Result → Course β} {s s' : Store} (hj : JobAlike s s' j j' P)
    (h : ∀ a b t t', Later s s' t t' → P a b t t' → CourseAlike Q (next a) (next' b) t t') :
    CourseAlike Q (.part j next) (.part j' next') s s'
  | inCall {stmts : List Stmt} {env : Env} {next : Completion → Course α}
    {next' : Completion → Course β} {s s' : Store}
    (h : ∀ c c' t t', Later s s' t t' → Likeness.completion c c' t t' →
      CourseAlike Q (next c) (next' c') t t') :
    CourseAlike Q (.inCall stmts env next) (.inCall stmts env next') s s'

section
variable {α β γ δ : Type} {P : Likeness α β} {Q : Likeness γ δ} {s s' : Store}

theorem alike_perform {o o' : Op} {P : Likeness o.Result o'.Result} (h : OpAlike s s' o o' P) :
    CourseAlike P (.perform o) (.perform o') s s' :=
  .step h fun _ _ _ _ _ hab => .ends hab

theorem alike_carryOut {j j' : Job} {P : Likeness j.Result j'.Result} (h : JobAlike s s' j j' P) :
    CourseAlike P (.carryOut j) (.carryOut j') s s' :=
  .part h fun _ _ _ _ _ hab => .ends hab

theorem alike_refused {f g : Fault} (h : f = g) :
    CourseAlike P (.fail f) (.fail g) s s' :=
  h ▸ .step (.fail f) fun a => a.elim

/-- A look at the stores, which says nothing new of them. -/
theorem alike_looking {k : Store → Course γ} {k' : Store → Course δ}
    (h : ∀ t t', Later s s' t t' → CourseAlike Q (k t) (k' t') t t') :
    CourseAlike Q (Course.look >>= k) (Course.look >>= k') s s' :=
  .step .look fun _ _ t t' later hs => by
    obtain ⟨rfl, rfl⟩ := hs
    exact h _ _ later

theorem alike_ite {b b' : Bool} (hb : b = b') {p q : Course γ} {p' q' : Course δ}
    (hp : CourseAlike Q p p' s s') (hq : CourseAlike Q q q' s s') :
    CourseAlike Q (if b then p else q) (if b' then p' else q') s s' := by
  subst hb
  split
  · exact hp
  · exact hq

theorem CourseAlike.bind {p : Course α} {p' : Course β} {f : α → Course γ} {f' : β → Course δ}
    (h : CourseAlike P p p' s s') (l : s.Alike s')
    (hf : ∀ a b t t', Later s s' t t' → P a b t t' → CourseAlike Q (f a) (f' b) t t') :
    CourseAlike Q (p >>= f) (p' >>= f') s s' := by
  induction h with
  | ends h => exact hf _ _ _ _ (.refl l) h
  | step ho _ ih =>
      exact .step ho fun a b t t' later hab => ih a b t t' later hab later.alike
        fun c d u u' later' => hf c d u u' (later.trans later')
  | part hj _ ih =>
      exact .part hj fun a b t t' later hab => ih a b t t' later hab later.alike
        fun c d u u' later' => hf c d u u' (later.trans later')
  | inCall _ ih =>
      exact .inCall fun a b t t' later hab => ih a b t t' later hab later.alike
        fun c d u u' later' => hf c d u u' (later.trans later')

end

/-! ### Names in courses -/

section
variable {s s' : Store} {env : Env}

theorem alike_functionValue (d : Definition) :
    CourseAlike .value (.functionValue d env) (.functionValue d env) s s' := by
  obtain ⟨name, parameters, rest, body⟩ := d
  cases name with
  | none => exact alike_perform (.newFunction _)
  | some name =>
      refine .step (.newScope false env) fun inner inner' t t' later hi => ?_
      subst hi
      refine .step (.newFunction _) fun f g u u' later' hf => ?_
      exact .step (.define inner name hf false) fun _ _ v v' later'' _ => .ends (later''.value hf)

theorem alike_declareFunction (d : Definition) :
    CourseAlike .unit (.declareFunction d env) (.declareFunction d env) s s' := by
  refine .step (.newFunction _) fun f g t t' later hf => ?_
  refine .step (.declareVar env _) fun _ _ u u' later' _ => ?_
  exact alike_perform (.assign env _ (later'.value hf))

theorem alike_declareFunctions (l : s.Alike s') (body : List Stmt) :
    CourseAlike .unit (.declareFunctions env body) (.declareFunctions env body) s s' := by
  induction body generalizing s s' with
  | nil => exact .ends trivial
  | cons first rest ih =>
      cases first with
      | function d =>
          exact (alike_declareFunction d).bind l fun _ _ t t' later _ => ih later.alike
      | _ => exact ih l

theorem alike_bindParameters (names : List String) {arguments arguments' : List Value}
    (h : Likeness.values arguments arguments' s s') :
    CourseAlike .values (.bindParameters env names arguments) (.bindParameters env names arguments')
      s s' := by
  induction names generalizing s s' arguments arguments' with
  | nil => exact .ends h
  | cons name names ih =>
      exact .step (.define env name (h.headD .undefined) true) fun _ _ t t' later _ =>
        ih (later.values h.tail)

theorem alike_bindRest (name : Option String) {left left' : List Value}
    (h : Likeness.values left left' s s') :
    CourseAlike .unit (.bindRest env name left) (.bindRest env name left') s s' := by
  cases name with
  | none => exact .ends trivial
  | some name =>
      exact .step (.newArray h) fun v w t t' later hv => alike_perform (.define env name hv true)

theorem alike_declareVars (names : List String) :
    CourseAlike .unit (.declareVars env names) (.declareVars env names) s s' := by
  induction names generalizing s s' with
  | nil => exact .ends trivial
  | cons name names ih =>
      exact .step (.declareVar env name) fun _ _ t t' _ _ => ih

theorem alike_enter (d : Definition) {arguments arguments' : List Value}
    (h : Likeness.values arguments arguments' s s') :
    CourseAlike .same (.enter d env arguments) (.enter d env arguments') s s' := by
  refine .step (.newScope true env) fun inner inner' t t' later hi => ?_
  subst hi
  refine (alike_bindParameters _ (later.values h)).bind later.alike
    fun left left' u u' later₁ hl => ?_
  refine (alike_bindRest _ hl).bind later₁.alike fun _ _ v v' later₂ _ => ?_
  refine (alike_declareVars _).bind later₂.alike fun _ _ w w' later₃ _ => ?_
  exact (alike_declareFunctions later₃.alike _).bind later₃.alike fun _ _ x x' _ _ => .ends rfl

theorem alike_bindRound (binding : LoopBinding) {item item' : Value}
    (h : Likeness.value item item' s s') :
    CourseAlike .same (.bindRound binding item env) (.bindRound binding item' env) s s' := by
  obtain ⟨kind, name⟩ := binding
  have own (mutable : Bool) : CourseAlike .same (.ownRound name item mutable env)
      (.ownRound name item' mutable env) s s' := by
    refine .step (.newScope false env) fun inner inner' t t' later hi => ?_
    subst hi
    exact .step (.define inner name (later.value h) mutable) fun _ _ u u' _ _ => .ends rfl
  cases kind with
  | none => exact .step (.assign env name h) fun _ _ t t' _ _ => .ends rfl
  | some kind =>
      cases kind with
      | var =>
          refine .step (.declareVar env name) fun _ _ t t' later _ => ?_
          exact .step (.assign env name (later.value h)) fun _ _ u u' _ _ => .ends rfl
      | «let» => exact own true
      | const => exact own false

theorem alike_bindDeclared (kind : DeclKind) (name : String) {value value' : Option Value}
    (h : Likeness.option value value' s s') :
    CourseAlike .unit (.bindDeclared kind name value env) (.bindDeclared kind name value' env)
      s s' := by
  have hd : Likeness.value (value.getD .undefined) (value'.getD .undefined) s s' := by
    cases h with
    | some h => exact h
    | none => exact .undefined
  cases kind with
  | var =>
      refine .step (.declareVar env name) fun _ _ t t' later _ => ?_
      cases h with
      | some h => exact alike_perform (.assign env name (later.value h))
      | none => exact .ends trivial
  | «let» => exact alike_perform (.declare env name hd true)
  | const => exact alike_perform (.declare env name hd false)

theorem alike_readPlace {place place' : Place} (h : Likeness.place place place' s s') :
    CourseAlike .value (.readPlace env place) (.readPlace env place') s s' := by
  cases h with
  | name word => exact alike_perform (.lookUp env word)
  | property hv key => exact alike_perform (.getProperty hv key)

theorem alike_writePlace {place place' : Place} (h : Likeness.place place place' s s')
    {v w : Value} (hv : Likeness.value v w s s') :
    CourseAlike .unit (.writePlace env v place) (.writePlace env w place') s s' := by
  cases h with
  | name word => exact alike_perform (.assign env word hv)
  | property hb key => exact alike_perform (.setProperty hb key hv)

/-! ### Expressions and calls -/

theorem alike_ofExpr (e : Expr) : CourseAlike .value (.ofExpr env e) (.ofExpr env e) s s' := by
  cases e with
  | number x => exact .ends (.number x)
  | string t => exact .ends (.string t)
  | bool b => exact .ends (.same rfl)
  | null => exact .ends (.same rfl)
  | name word => exact alike_perform (.lookUp env word)
  | array items =>
      exact .part (.evalAll items env) fun vs ws t t' _ h => alike_perform (.newArray h)
  | object fields =>
      exact .part (.evalFields fields .nil env) fun all all' t t' _ h => alike_perform (.newObject h)
  | function d => exact alike_functionValue d
  | member object key =>
      exact .part (.eval object env) fun v w t t' _ h => alike_perform (.getProperty h key)
  | index object key =>
      refine .part (.eval object env) fun v w t t' _ hv => ?_
      refine .part (.eval key env) fun k k' u u' later hk => ?_
      refine alike_looking fun x x' later' => ?_
      rw [later'.alike.key (later'.value hk)]
      exact alike_perform (.getProperty (later'.value (later.value hv)) _)
  | call callee arguments => exact alike_carryOut (.evalCall callee arguments env)
  | unary op operand =>
      rcases typeof_name_or op operand with ⟨word, rfl, rfl⟩ | hn
      · exact alike_perform (.typeOfName env word)
      · rw [Course.ofExpr]
        · exact .part (.eval operand env) fun v w t t' _ h => alike_perform (.unary op h)
        · exact hn
  | update increment before target =>
      refine .part (.evalPlace target env) fun place place' t t' later hp => ?_
      refine (alike_readPlace hp).bind later.alike fun v w u u' later₁ hv => ?_
      refine alike_looking fun x x' later₂ => ?_
      rw [later₂.alike.number (later₂.value hv)]
      exact (alike_writePlace (later₂.place (later₁.place hp)) (.number _)).bind
        later₂.alike fun _ _ y y' _ _ => .ends (.number _)
  | binary op left right =>
      refine .part (.eval left env) fun v w t t' _ hv => ?_
      exact .part (.eval right env) fun v' w' u u' later hv' =>
        alike_perform (.binary op (later.value hv) hv')
  | logical op left right =>
      refine .part (.eval left env) fun v w t t' _ hv => ?_
      exact alike_ite (hv.keepsLeft op) (.ends hv) (alike_carryOut (.eval right env))
  | conditional test yes no =>
      refine .part (.eval test env) fun v w t t' _ hv => ?_
      exact alike_ite hv.truthy (alike_carryOut (.eval yes env)) (alike_carryOut (.eval no env))
  | assign op target value =>
      cases op with
      | none =>
          refine .part (.evalPlace target env) fun place place' t t' _ hp => ?_
          refine .part (.eval value env) fun v w u u' later hv => ?_
          exact (alike_writePlace (later.place hp) hv).bind later.alike
            fun _ _ x x' later' _ => .ends (later'.value hv)
      | some op =>
          refine .part (.evalPlace target env) fun place place' t t' later hp => ?_
          refine (alike_readPlace hp).bind later.alike fun v w u u' later₁ hv => ?_
          refine .part (.eval value env) fun v' w' x x' later₂ hv' => ?_
          refine .step (.binary op (later₂.value hv) hv') fun r r' y y' later₃ hr => ?_
          exact (alike_writePlace
            (later₃.place (later₂.place (later₁.place hp))) hr).bind later₃.alike
              fun _ _ z z' later₄ _ => .ends (later₄.value hr)

theorem alike_ofPlace (e : Expr) : CourseAlike .place (.ofPlace env e) (.ofPlace env e) s s' := by
  cases e with
  | name word => exact .ends (.name word)
  | member object key =>
      exact .part (.eval object env) fun v w t t' _ hv => .ends (.property hv key)
  | index object key =>
      refine .part (.eval object env) fun v w t t' _ hv => ?_
      refine .part (.eval key env) fun k k' u u' later hk => ?_
      refine alike_looking fun x x' later' => ?_
      rw [later'.alike.key (later'.value hk)]
      exact .ends (.property (later'.value (later.value hv)) _)
  | _ => exact alike_refused rfl

theorem alike_callOrFail {f f' : Value} (hf : Likeness.value f f' s s')
    {arguments arguments' : List Value} (ha : Likeness.values arguments arguments' s s')
    (described : String) :
    CourseAlike .value (.callOrFail f arguments described) (.callOrFail f' arguments' described)
      s s' := by
  rw [Course.callOrFail, Course.callOrFail, hf.isFunction]
  split
  · exact alike_carryOut (.call hf ha)
  · exact alike_refused rfl

theorem alike_ofCall (callee : Expr) (arguments : List Expr) :
    CourseAlike .value (.ofCall arguments env callee) (.ofCall arguments env callee) s s' := by
  cases callee with
  | member object key =>
      refine .part (.eval object env) fun v w t t' _ hv => ?_
      exact .part (.evalAll arguments env) fun vs ws u u' later ha =>
        alike_carryOut (.callMethod _ (later.value hv) key ha)
  | index object key =>
      refine .part (.eval object env) fun v w t t' _ hv => ?_
      refine .part (.eval key env) fun k k' u u' later hk => ?_
      refine alike_looking fun x x' later₁ => ?_
      rw [later₁.alike.key (later₁.value hk)]
      exact .part (.evalAll arguments env) fun vs ws y y' later₂ ha =>
        alike_carryOut (.callMethod _ (later₂.value (later₁.value (later.value hv))) _ ha)
  | _ =>
      refine .part (.eval _ env) fun f f' t t' _ hf => ?_
      exact .part (.evalAll arguments env) fun vs ws u u' later ha =>
        alike_callOrFail (later.value hf) ha _

theorem Method.receiver_of_visit {receiver : Value} {name : String} {a : Ref} {m : ArrayVisit}
    (h : Method.of? receiver name = some (.visit a m)) : receiver = .array a := by
  cases receiver with
  | array b =>
      simp only [Method.of?] at h
      split at h <;> cases h
      rfl
  | string t => simp [Method.of?] at h
  | number x => simp [Method.of?] at h
  | bool b => simp [Method.of?] at h
  | _ => cases h

/-- A method that is called for every element. -/
theorem alike_visiting (a : Ref) (m : ArrayVisit) {arguments arguments' : List Value}
    (ha : Likeness.values arguments arguments' s s') (described name : String)
    (hm : Method.of? (.array a) name = some (.visit a m)) :
    CourseAlike .value (.ofMethod described (.array a) name arguments)
      (.ofMethod described (.array a) name arguments') s s' := by
  rw [Course.ofMethod, Course.ofMethod, hm]
  refine alike_looking fun t t' later => ?_
  have whole : Likeness.value (.array a) (.array a) t t' := .same rfl
  have entries := later.alike.entries whole
  refine .part (.visit (later.value (ha.argument .undefined 0)) whole entries .nil)
    fun returned returned' u u' later' hr => ?_
  exact alike_perform (.collect m
    (List.rel_map (fun p q hp => hp.1) (later'.entries entries)) hr)

theorem alike_ofMethod (described : String) {receiver receiver' : Value}
    (hr : Likeness.value receiver receiver' s s') (name : String)
    {arguments arguments' : List Value} (ha : Likeness.values arguments arguments' s s') :
    CourseAlike .value (.ofMethod described receiver name arguments)
      (.ofMethod described receiver' name arguments') s s' := by
  have held (hm : Method.of? receiver name = none) (hm' : Method.of? receiver' name = none) :
      CourseAlike .value (.ofMethod described receiver name arguments)
        (.ofMethod described receiver' name arguments') s s' := by
    rw [Course.ofMethod, Course.ofMethod, hm, hm']
    exact .step (.getProperty hr name) fun f f' t t' later hf =>
      alike_callOrFail hf (later.values ha) described
  cases hr with
  | function => exact held rfl rfl
  | same hv =>
      cases hm : Method.of? receiver name with
      | none => exact held hm hm
      | some method =>
          cases method with
          | visit a m =>
              obtain rfl : receiver = .array a := Method.receiver_of_visit hm
              exact alike_visiting a m ha described name hm
          | array a m =>
              rw [Course.ofMethod, Course.ofMethod, hm]
              exact alike_perform (.arrayMethod m a ha)
          | string t m =>
              rw [Course.ofMethod, Course.ofMethod, hm]
              exact alike_perform (.stringMethod m t ha)
          | number x m =>
              rw [Course.ofMethod, Course.ofMethod, hm]
              exact alike_perform (.numberMethod m x ha)
          | boolText b =>
              rw [Course.ofMethod, Course.ofMethod, hm]
              exact .ends (.string _)

theorem alike_ofCallable (l : s.Alike s') (c : Callable) {arguments arguments' : List Value}
    (ha : Likeness.values arguments arguments' s s') :
    CourseAlike .value (.ofCallable arguments s c) (.ofCallable arguments' s' c) s s' := by
  have whole := ha.argument .undefined 0
  have visit := JobAlike.visit (ha.argument .undefined 1) whole (l.entries whole) .nil
  rcases c with ⟨d, env⟩ | m | _ | _
  · exact alike_carryOut (.invoke d env ha)
  · exact alike_perform (.plain m ha)
  · exact .part visit fun _ _ t t' later _ => .ends (later.value whole)
  · exact .part visit fun _ _ t t' later hr => alike_perform (.newArray hr)

/-! ### Statements -/

theorem alike_nextRound {again again' : Course Completion}
    (h : CourseAlike .completion again again' s s') {c c' : Completion}
    (hc : Likeness.completion c c' s s') :
    CourseAlike .completion (.nextRound again c) (.nextRound again' c') s s' := by
  cases hc with
  | normal => exact h
  | «continue» => exact h
  | «break» => exact .ends .normal
  | «return» hv => exact .ends (.return hv)

theorem alike_ofOption (e : Option Expr) :
    CourseAlike .option (.ofOption env e) (.ofOption env e) s s' := by
  cases e with
  | none => exact .ends .none
  | some e => exact .part (.eval e env) fun v w t t' _ hv => .ends (.some hv)

theorem alike_ofStmt (l : s.Alike s') (stmt : Stmt) :
    CourseAlike .completion (.ofStmt env stmt) (.ofStmt env stmt) s s' := by
  cases stmt with
  | expr e => exact .part (.eval e env) fun _ _ t t' _ _ => .ends .normal
  | declare kind bindings =>
      exact .part (.execBindings kind bindings env) fun _ _ t t' _ _ => .ends .normal
  | function d => exact (alike_declareFunction d).bind l fun _ _ t t' _ _ => .ends .normal
  | block body =>
      refine .step (.newScope false env) fun inner inner' t t' _ hi => ?_
      subst hi
      exact alike_carryOut (.execAll body inner)
  | branch test yes no =>
      refine .part (.eval test env) fun v w t t' _ hv => ?_
      refine alike_ite hv.truthy (alike_carryOut (.exec yes env)) ?_
      cases no with
      | none => exact .ends .normal
      | some stmt => exact alike_carryOut (.exec stmt env)
  | loop init test update body =>
      refine .step (.newScope false env) fun inner inner' t t' _ hi => ?_
      subst hi
      cases init with
      | none => exact alike_carryOut (.execLoop test update body inner)
      | some first =>
          exact .part (.exec first inner) fun _ _ u u' _ _ =>
            alike_carryOut (.execLoop test update body inner)
  | forIn binding subject body =>
      refine .part (.eval subject env) fun v w t t' _ hv => ?_
      refine alike_looking fun u u' later => ?_
      exact alike_carryOut (.execEach binding (later.alike.loopKeys (later.value hv)) body env)
  | forOf binding subject body =>
      refine .part (.eval subject env) fun v w t t' _ hv => ?_
      exact .step (.loopItems hv) fun items items' u u' _ hi =>
        alike_carryOut (.execEach binding hi body env)
  | whileLoop test body => exact alike_carryOut (.execLoop (some test) none body env)
  | «break» => exact .ends .break
  | «continue» => exact .ends .continue
  | «return» value =>
      cases value with
      | none => exact .ends (.return .undefined)
      | some e => exact .part (.eval e env) fun v w t t' _ hv => .ends (.return hv)
  | empty => exact .ends .normal

theorem alike_ofCalled {f f' : Value} (hf : Likeness.value f f' s s')
    {arguments arguments' : List Value} (ha : Likeness.values arguments arguments' s s') :
    CourseAlike .value (.ofJob (.call f arguments)) (.ofJob (.call f' arguments')) s s' := by
  refine alike_looking fun t t' later => ?_
  have text := later.alike.text (later.value hf)
  cases later.value hf with
  | function hc hc' =>
      dsimp only
      rw [getElem?_of_callable hc, getElem?_of_callable hc']
      exact alike_ofCallable later.alike _ (later.values ha)
  | same hv =>
      cases f with
      | function => cases hv
      | _ => exact alike_refused (congrArg Fault.notCallable text)

theorem alike_ofInvoked (d : Definition) {arguments arguments' : List Value}
    (ha : Likeness.values arguments arguments' s s') :
    CourseAlike .value (.ofJob (.invoke d env arguments)) (.ofJob (.invoke d env arguments'))
      s s' := by
  refine alike_looking fun t t' later => ?_
  rw [later.alike.depth]
  split
  · exact alike_refused rfl
  · refine (alike_enter d (later.values ha)).bind later.alike
      fun inner inner' u u' _ hi => ?_
    subst hi
    refine .inCall fun c c' x x' _ hc => ?_
    cases hc with
    | «return» hv => exact .ends hv
    | _ => exact .ends .undefined

/-- **Jobs that are alike have courses that are alike.** -/
theorem JobAlike.course {j j' : Job} {P : Likeness j.Result j'.Result} (h : JobAlike s s' j j' P)
    (l : s.Alike s') :
    CourseAlike P (.ofJob j) (.ofJob j') s s' := by
  cases h with
  | eval e env => exact alike_ofExpr e
  | evalAll es env =>
      cases es with
      | nil => exact .ends .nil
      | cons e rest =>
          refine .part (.eval e env) fun v w t t' _ hv => ?_
          exact .part (.evalAll rest env) fun vs ws u u' later hvs =>
            .ends (.cons (later.value hv) hvs)
  | evalFields fields hd env =>
      rcases fields with _ | ⟨⟨key, e⟩, rest⟩
      · exact .ends hd
      · exact .part (.eval e env) fun v w t t' later hv =>
          alike_carryOut (.evalFields rest ((later.fields hd).put key hv) env)
  | evalPlace e env => exact alike_ofPlace e
  | evalCall callee arguments env => exact alike_ofCall callee arguments
  | callMethod described hr name ha => exact alike_ofMethod described hr name ha
  | visit hf hw he hd =>
      cases he with
      | nil => exact .ends (List.forall₂_reverse_iff.mpr hd)
      | cons hp he =>
          refine .part (.call hf (.cons hp.1 (.cons hp.2 (.cons hw .nil))))
            fun r r' t t' later hr => ?_
          exact alike_carryOut (.visit (later.value hf) (later.value hw) (later.entries he)
            (.cons hr (later.values hd)))
  | call hf ha => exact alike_ofCalled hf ha
  | invoke d env ha => exact alike_ofInvoked d ha
  | exec stmt env => exact alike_ofStmt l stmt
  | execAll body env =>
      cases body with
      | nil => exact .ends .normal
      | cons first rest =>
          refine .part (.exec first env) fun c c' t t' _ hc => ?_
          cases hc with
          | normal => exact alike_carryOut (.execAll rest env)
          | «break» => exact .ends .break
          | «continue» => exact .ends .continue
          | «return» hv => exact .ends (.return hv)
  | execBindings kind bindings env =>
      rcases bindings with _ | ⟨⟨name, e⟩, rest⟩
      · exact .ends trivial
      · refine (alike_ofOption e).bind l fun v w t t' later hv => ?_
        exact (alike_bindDeclared kind name hv).bind later.alike fun _ _ u u' _ _ =>
          alike_carryOut (.execBindings kind rest env)
  | execLoop test update body env =>
      refine .part (.evalTest test env) fun goesOn goesOn' t t' _ hg => ?_
      subst hg
      refine alike_ite rfl ?_ (.ends .normal)
      refine .part (.exec body env) fun c c' u u' _ hc => ?_
      exact alike_nextRound (.part (.evalUpdate update env) fun _ _ x x' _ _ =>
        alike_carryOut (.execLoop test update body env)) hc
  | evalTest test env =>
      refine (alike_ofOption test).bind l fun v w t t' _ hv => .ends ?_
      cases hv with
      | some hv => exact hv.truthy
      | none => rfl
  | evalUpdate update env => exact (alike_ofOption update).bind l fun _ _ t t' _ _ => .ends trivial
  | execEach binding hi body env =>
      cases hi with
      | nil => exact .ends .normal
      | cons hv hi =>
          refine (alike_bindRound binding hv).bind l fun inner inner' t t' later hinner => ?_
          subst hinner
          refine .part (.exec body inner) fun c c' u u' later' hc => ?_
          exact alike_nextRound (alike_carryOut
            (.execEach binding (later'.values (later.values hi)) body env)) hc

end

/-! ### Runs -/

/-- Calls are open on both sides, and are closed again. -/
theorem alike_asCall {s s' : Store} {m m' : Run Completion}
    (h : RunsAlike .completion m m' s.deeper s'.deeper) :
    RunsAlike .completion (asCall m) (asCall m') s s' := by
  unfold RunsAlike at h ⊢
  rw [asCall_run, asCall_run]
  generalize m s.deeper = r at h
  generalize m' s'.deeper = r' at h
  cases h with
  | ok later hc =>
      have alike := later.alike
      exact .ok ⟨{ alike with depth := congrArg (· - 1) alike.depth }, later.left, later.right⟩ hc
  | fault f t t' => exact .fault f _ _
  | exhausted t r => exact .exhausted _ _

/-- Whether no two functions are compared at the entries of a log. -/
def Uncompared (log : List Entry) : Prop :=
  ∀ e ∈ log, e.comparesFunctions = false

section
variable {l l' : List Entry}

theorem uncompared_append : Uncompared (l ++ l') ↔ Uncompared l ∧ Uncompared l' := by
  simp only [Uncompared, List.mem_append, or_imp, forall_and]

theorem uncompared_cons {e : Entry} :
    Uncompared (e :: l) ↔ e.comparesFunctions = false ∧ Uncompared l := by
  simp only [Uncompared, List.mem_cons, forall_eq_or_imp]

end

theorem Store.Alike.deeper {s s' : Store} (l : s.Alike s') : s.deeper.Alike s'.deeper :=
  { l with depth := congrArg (· + 1) l.depth }

theorem CourseAlike.run {α β : Type} {Q : Likeness α β} {p : Course α} {p' : Course β}
    {n m : Nat} {s s' : Store} (h : CourseAlike Q p p' s s')
    (ih : ∀ {j j' : Job} {P : Likeness j.Result j'.Result} {s s' : Store}, JobAlike s s' j j' P →
      s.Alike s' → Uncompared (Job.log n j s) → RunsAlike P (j.run n) (j'.run m) s s')
    (l : s.Alike s') (hlog : Uncompared (p.log (Job.run n) (Job.log n) s)) :
    RunsAlike Q (p.run (Job.run n)) (p'.run (Job.run m)) s s' := by
  induction h with
  | ends h => exact alike_pure l h
  | step ho _ ihp =>
      obtain ⟨hf, hrest⟩ := uncompared_cons.mp hlog
      exact (ho.run l hf).bind fun a b t t' hm later hab =>
        ihp a b t t' later hab later.alike (by rwa [after_ok hm] at hrest)
  | part hj _ ihp =>
      obtain ⟨hjob, hrest⟩ := uncompared_append.mp hlog
      exact (ih hj l hjob).bind fun a b t t' hm later hab =>
        ihp a b t t' later hab later.alike (by rwa [after_ok hm] at hrest)
  | @inCall stmts env next next' s s' _ ihp =>
      obtain ⟨hbody, hrest⟩ := uncompared_append.mp hlog
      have body := ih (.execAll stmts env) l.deeper hbody
      exact (alike_asCall body).bind fun c c' t t' hm later hc =>
        ihp c c' t t' later hc later.alike (by rwa [after_ok hm] at hrest)

/-- **Jobs that are alike end alike** from stores that are alike, if no two functions are compared in
the first run, and the second is given at least as many steps. -/
theorem JobAlike.run : ∀ {n m : Nat} {j j' : Job} {P : Likeness j.Result j'.Result} {s s' : Store},
    n ≤ m → JobAlike s s' j j' P → s.Alike s' → Uncompared (Job.log n j s) →
      RunsAlike P (j.run n) (j'.run m) s s'
  | 0, m, j, j', P, s, s', _, _, _, _ => by
      rw [Job.run_zero]
      exact .exhausted _ _
  | n + 1, 0, _, _, _, _, _, hnm, _, _, _ => absurd hnm (Nat.not_succ_le_zero n)
  | n + 1, m + 1, j, j', P, s, s', hnm, h, l, hlog => by
      rw [Job.run_succ, Job.run_succ]
      exact (h.course l).run (JobAlike.run (Nat.le_of_succ_le_succ hnm)) l
        (uncompared_cons.mp hlog).2

end Stencil.Script
