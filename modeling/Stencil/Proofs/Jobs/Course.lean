import Stencil.Proofs.Runs.Heap
import Stencil.Proofs.Runs.Trace

/-!
# Jobs — what a run consists of

The evaluator is written as functions that end in a store; the states in between do not show in them.
Here each of its functions with its arguments is a `Job`, what is done to a store in one go is an
`Op`, and `course` says of every job which operations and jobs it consists of, one after the other.

* `Job.run_succ`: a job is done by going through its course.
* `Job.log`: all jobs that are begun and all operations that are done in the run of a job, in order,
  each with the store that it finds.
* `Definition.log`: the log of a call from outside.
-/

namespace Stencil.Script

/-- **Operations**: what is done to a store in one go, or asked of it. -/
inductive Op where
  | look
  | fail (f : Fault)
  | newArray (items : Array Value)
  | newObject (fields : Fields)
  | newFunction (c : Callable)
  | newScope (ofFunction : Bool) (env : Env)
  | define (env : Env) (name : String) (value : Value) (mutable : Bool)
  | declare (env : Env) (name : String) (value : Value) (mutable : Bool)
  | declareVar (env : Env) (name : String)
  | lookUp (env : Env) (name : String)
  | typeOfName (env : Env) (name : String)
  | assign (env : Env) (name : String) (value : Value)
  | getProperty (base : Value) (key : String)
  | setProperty (base : Value) (key : String) (value : Value)
  | unary (op : UnaryOp) (v : Value)
  | binary (op : BinaryOp) (v w : Value)
  | loopItems (v : Value)
  | arrayMethod (m : ArrayMethod) (a : Ref) (arguments : List Value)
  | stringMethod (m : StringMethod) (t : String) (arguments : List Value)
  | numberMethod (m : NumberMethod) (x : Float) (arguments : List Value)
  | plain (n : PlainNative) (arguments : List Value)
  | collect (m : ArrayVisit) (items returned : List Value)

/-- What an operation has as its result. -/
abbrev Op.Result : Op → Type
  | look => Store
  | fail _ => Empty
  | newScope _ _ => Env
  | define _ _ _ _ | declare _ _ _ _ | declareVar _ _ | assign _ _ _ | setProperty _ _ _ => Unit
  | loopItems _ => List Value
  | _ => Value

/-- Does an operation. -/
@[simp] def Op.run : (o : Op) → Run o.Result
  | look => get
  | fail f => Script.fail f
  | newArray items => Script.newArray items
  | newObject fields => Script.newObject fields
  | newFunction c => Script.newFunction c
  | newScope ofFunction env => Script.newScope ofFunction env
  | define env name value mutable => Script.define env name value mutable
  | declare env name value mutable => Script.declare env name value mutable
  | declareVar env name => Script.declareVar env name
  | lookUp env name => Script.lookUp env name
  | typeOfName env name => Script.typeOfName env name
  | assign env name value => assignName env name value
  | getProperty base key => Script.getProperty base key
  | setProperty base key value => Script.setProperty base key value
  | unary op v => applyUnary op v
  | binary op v w => operate op v w
  | loopItems v => Script.loopItems v
  | arrayMethod m a arguments => m.run a arguments
  | stringMethod m t arguments => m.run t arguments
  | numberMethod m x arguments => m.run x arguments
  | plain n arguments => n.run arguments
  | collect m items returned => m.collect items returned

/-- Operations that work on arrays and objects alone. -/
def Op.OfHeap : Op → Prop
  | newArray _ | newObject _ | getProperty _ _ | setProperty _ _ _ | unary _ _ | binary _ _ _
  | loopItems _ | arrayMethod _ _ _ | stringMethod _ _ _ | numberMethod _ _ _ | plain _ _
  | collect _ _ _ => True
  | _ => False

theorem Op.onHeap {o : Op} (h : o.OfHeap) : OnHeap o.run := by
  cases o with
  | newArray items => exact onHeap_newArray items
  | newObject fields => exact onHeap_newObject fields
  | getProperty base key => exact onHeap_getProperty base key
  | setProperty base key value => exact onHeap_setProperty base key value
  | unary op v => exact onHeap_applyUnary op v
  | binary op v w => exact onHeap_operate op v w
  | loopItems v => exact onHeap_loopItems v
  | arrayMethod m a arguments => exact m.onHeap_run a arguments
  | stringMethod m t arguments => exact m.onHeap_run t arguments
  | numberMethod m x arguments => exact m.onHeap_run x arguments
  | plain n arguments => exact n.onHeap_run arguments
  | collect m items returned => exact m.onHeap_collect items returned
  | _ => exact h.elim

/-- **Jobs**: the functions of the evaluator with their arguments. -/
inductive Job where
  | eval (e : Expr) (env : Env)
  | evalAll (es : List Expr) (env : Env)
  | evalFields (fields : List (String × Expr)) (done : Fields) (env : Env)
  | evalPlace (e : Expr) (env : Env)
  | evalCall (callee : Expr) (arguments : List Expr) (env : Env)
  | callMethod (described : String) (receiver : Value) (name : String) (arguments : List Value)
  | visit (f whole : Value) (entries : List (Value × Value)) (done : List Value)
  | call (f : Value) (arguments : List Value)
  | invoke (definition : Definition) (env : Env) (arguments : List Value)
  | exec (stmt : Stmt) (env : Env)
  | execAll (body : List Stmt) (env : Env)
  | execBindings (kind : DeclKind) (bindings : List (String × Option Expr)) (env : Env)
  | execLoop (test update : Option Expr) (body : Stmt) (env : Env)
  | evalTest (test : Option Expr) (env : Env)
  | evalUpdate (update : Option Expr) (env : Env)
  | execEach (binding : LoopBinding) (items : List Value) (body : Stmt) (env : Env)

/-- What a job has as its result. -/
abbrev Job.Result : Job → Type
  | evalAll _ _ | visit _ _ _ _ => List Value
  | evalFields _ _ _ => Fields
  | evalPlace _ _ => Place
  | exec _ _ | execAll _ _ | execLoop _ _ _ _ | execEach _ _ _ _ => Completion
  | execBindings _ _ _ | evalUpdate _ _ => Unit
  | evalTest _ _ => Bool
  | _ => Value

/-- Does a job, going at most so many steps deep. -/
@[simp] def Job.run (n : Nat) : (j : Job) → Run j.Result
  | eval e env => Script.eval n e env
  | evalAll es env => Script.evalAll n es env
  | evalFields fields done env => Script.evalFields n fields done env
  | evalPlace e env => Script.evalPlace n e env
  | evalCall callee arguments env => Script.evalCall n callee arguments env
  | callMethod described receiver name arguments =>
    Script.callMethod n described receiver name arguments
  | visit f whole entries done => Script.visit n f whole entries done
  | call f arguments => Script.call n f arguments
  | invoke definition env arguments => Script.invoke n definition env arguments
  | exec stmt env => Script.exec n stmt env
  | execAll body env => Script.execAll n body env
  | execBindings kind bindings env => Script.execBindings n kind bindings env
  | execLoop test update body env => Script.execLoop n test update body env
  | evalTest test env => Script.evalTest n test env
  | evalUpdate update env => Script.evalUpdate n update env
  | execEach binding items body env => Script.execEach n binding items body env

/-! ### Courses -/

/-- **Courses**: operations and jobs one after the other, each of which may depend on the results of
those before.  The body of a function is carried out as one more open call. -/
inductive Course (α : Type) where
  | ends (result : α)
  | step (o : Op) (next : o.Result → Course α)
  | part (j : Job) (next : j.Result → Course α)
  | inCall (stmts : List Stmt) (env : Env) (next : Completion → Course α)

namespace Course
variable {α β : Type}

/-- One course after another. -/
def bind : Course α → (α → Course β) → Course β
  | ends a, f => f a
  | step o next, f => step o fun a => (next a).bind f
  | part j next, f => part j fun a => (next a).bind f
  | inCall stmts env next, f => inCall stmts env fun c => (next c).bind f

instance : Monad Course where
  pure := ends
  bind := bind

/-- One operation. -/
def perform (o : Op) : Course o.Result :=
  step o ends

/-- One job. -/
def carryOut (j : Job) : Course j.Result :=
  part j ends

/-- A fault. -/
def fail (f : Fault) : Course α :=
  step (.fail f) fun e => e.elim

/-- A look at the store. -/
def look : Course Store :=
  perform .look

/-! ### Names -/

/-- Makes a function of a definition. -/
def functionValue (definition : Definition) (env : Env) : Course Value :=
  match definition.name with
  | none => perform (.newFunction (.closure definition env))
  | some name => do
    let inner ← perform (.newScope false env)
    let f ← perform (.newFunction (.closure definition inner))
    perform (.define inner name f false)
    pure f

/-- Declares a function. -/
def declareFunction (definition : Definition) (env : Env) : Course Unit := do
  let f ← perform (.newFunction (.closure definition env))
  let name := definition.name.getD ""
  perform (.declareVar env name)
  perform (.assign env name f)

/-- Declares the functions that stand directly in a body. -/
def declareFunctions (env : Env) : List Stmt → Course Unit
  | [] => pure ()
  | .function definition :: rest => do
    declareFunction definition env
    declareFunctions env rest
  | _ :: rest => declareFunctions env rest

/-- Binds parameters to arguments. -/
def bindParameters (env : Env) : List String → List Value → Course (List Value)
  | [], arguments => pure arguments
  | name :: names, arguments => do
    perform (.define env name (arguments.headD .undefined) true)
    bindParameters env names arguments.tail

/-- Binds the parameter for the remaining arguments. -/
def bindRest (env : Env) (name : Option String) (left : List Value) : Course Unit :=
  match name with
  | some name => do
    let rest ← perform (.newArray left.toArray)
    perform (.define env name rest true)
  | none => pure ()

/-- Binds names for the whole function. -/
def declareVars (env : Env) : List String → Course Unit
  | [] => pure ()
  | name :: names => do
    perform (.declareVar env name)
    declareVars env names

/-- Opens the scope of a call and binds in it all that is bound before the body runs. -/
def enter (definition : Definition) (env : Env) (arguments : List Value) : Course Env := do
  let inner ← perform (.newScope true env)
  let left ← bindParameters inner definition.parameters arguments
  bindRest inner definition.rest left
  declareVars inner (hoistedNames definition.body)
  declareFunctions inner definition.body
  pure inner

/-- Binds the variable of a loop for one round in a scope of its own. -/
def ownRound (name : String) (item : Value) (mutable : Bool) (env : Env) : Course Env := do
  let inner ← perform (.newScope false env)
  perform (.define inner name item mutable)
  pure inner

/-- Binds the variable of a loop for one round. -/
def bindRound (binding : LoopBinding) (item : Value) (env : Env) : Course Env :=
  match binding.kind with
  | some .let => ownRound binding.name item true env
  | some .const => ownRound binding.name item false env
  | some .var => do
    perform (.declareVar env binding.name)
    perform (.assign env binding.name item)
    pure env
  | none => do
    perform (.assign env binding.name item)
    pure env

/-- Carries out one name of a declaration. -/
def bindDeclared (kind : DeclKind) (name : String) (value : Option Value) (env : Env) :
    Course Unit :=
  match kind with
  | .var => do
    perform (.declareVar env name)
    match value with
    | some v => perform (.assign env name v)
    | none => pure ()
  | .let => perform (.declare env name (value.getD .undefined) true)
  | .const => perform (.declare env name (value.getD .undefined) false)

/-- Reads what an assignment will write to. -/
def readPlace (env : Env) : Place → Course Value
  | .name word => perform (.lookUp env word)
  | .property base key => perform (.getProperty base key)

/-- Writes to the target of an assignment. -/
def writePlace (env : Env) (value : Value) : Place → Course Unit
  | .name word => perform (.assign env word value)
  | .property base key => perform (.setProperty base key value)

/-! ### Expressions and calls -/

/-- The course of an expression. -/
def ofExpr (env : Env) : Expr → Course Value
  | .number x => pure (.number x)
  | .string t => pure (.string t)
  | .bool b => pure (.bool b)
  | .null => pure .null
  | .name word => perform (.lookUp env word)
  | .array items => do
    let values ← carryOut (.evalAll items env)
    perform (.newArray values.toArray)
  | .object fields => do
    let all ← carryOut (.evalFields fields [] env)
    perform (.newObject all)
  | .function definition => functionValue definition env
  | .member object key => do
    let base ← carryOut (.eval object env)
    perform (.getProperty base key)
  | .index object key => do
    let base ← carryOut (.eval object env)
    let k ← carryOut (.eval key env)
    let s ← look
    perform (.getProperty base (s.key k))
  | .call callee arguments => carryOut (.evalCall callee arguments env)
  | .unary .typeof (.name word) => perform (.typeOfName env word)
  | .unary op operand => do
    let v ← carryOut (.eval operand env)
    perform (.unary op v)
  | .update increment before target => do
    let place ← carryOut (.evalPlace target env)
    let v ← readPlace env place
    let s ← look
    let old := s.number v
    let new := if increment then old + 1 else old - 1
    writePlace env (.number new) place
    pure (.number (if before then new else old))
  | .binary op left right => do
    let v ← carryOut (.eval left env)
    let w ← carryOut (.eval right env)
    perform (.binary op v w)
  | .logical op left right => do
    let v ← carryOut (.eval left env)
    if op.keepsLeft v then pure v else carryOut (.eval right env)
  | .conditional test yes no => do
    let v ← carryOut (.eval test env)
    if v.truthy then carryOut (.eval yes env) else carryOut (.eval no env)
  | .assign none target value => do
    let place ← carryOut (.evalPlace target env)
    let v ← carryOut (.eval value env)
    writePlace env v place
    pure v
  | .assign (some op) target value => do
    let place ← carryOut (.evalPlace target env)
    let current ← readPlace env place
    let operand ← carryOut (.eval value env)
    let v ← perform (.binary op current operand)
    writePlace env v place
    pure v

/-- The course of an assignment target. -/
def ofPlace (env : Env) : Expr → Course Place
  | .name word => pure (.name word)
  | .member object key => do
    let base ← carryOut (.eval object env)
    pure (.property base key)
  | .index object key => do
    let base ← carryOut (.eval object env)
    let k ← carryOut (.eval key env)
    let s ← look
    pure (.property base (s.key k))
  | _ => fail .invalidTarget

/-- Calls what should be a function. -/
def callOrFail (f : Value) (arguments : List Value) (described : String) : Course Value :=
  if f.isFunction then carryOut (.call f arguments) else fail (.notCallable described)

/-- The course of a call with its parts. -/
def ofCall (arguments : List Expr) (env : Env) : Expr → Course Value
  | .member object key => do
    let receiver ← carryOut (.eval object env)
    let values ← carryOut (.evalAll arguments env)
    carryOut (.callMethod (Expr.member object key).describe receiver key values)
  | .index object key => do
    let receiver ← carryOut (.eval object env)
    let k ← carryOut (.eval key env)
    let s ← look
    let values ← carryOut (.evalAll arguments env)
    carryOut (.callMethod (Expr.index object key).describe receiver (s.key k) values)
  | callee => do
    let f ← carryOut (.eval callee env)
    let values ← carryOut (.evalAll arguments env)
    callOrFail f values callee.describe

/-- The course of a method. -/
def ofMethod (described : String) (receiver : Value) (name : String) (arguments : List Value) :
    Course Value :=
  match Method.of? receiver name with
  | some (.array a m) => perform (.arrayMethod m a arguments)
  | some (.string t m) => perform (.stringMethod m t arguments)
  | some (.number x m) => perform (.numberMethod m x arguments)
  | some (.boolText b) => pure (.string (if b then "true" else "false"))
  | some (.visit a m) => do
    let s ← look
    let returned ← carryOut (.visit (argument arguments 0) receiver (s.entries (.array a)) [])
    perform (.collect m ((s.entries (.array a)).map Prod.fst) returned)
  | none => do
    let f ← perform (.getProperty receiver name)
    callOrFail f arguments described

/-- The course of what a function does. -/
def ofCallable (arguments : List Value) (s : Store) : Callable → Course Value
  | .closure definition env => carryOut (.invoke definition env arguments)
  | .native .each => do
    let whole := argument arguments 0
    let _ ← carryOut (.visit (argument arguments 1) whole (s.entries whole) [])
    pure whole
  | .native .map => do
    let whole := argument arguments 0
    let returned ← carryOut (.visit (argument arguments 1) whole (s.entries whole) [])
    perform (.newArray returned.toArray)
  | .native (.plain m) => perform (.plain m arguments)

/-- The value that a body returns. -/
def returned : Completion → Course Value
  | .return v => pure v
  | _ => pure .undefined

/-! ### Statements -/

/-- Goes on with a loop after a round, unless the round has left it. -/
def nextRound (again : Course Completion) : Completion → Course Completion
  | .break => pure .normal
  | .return v => pure (.return v)
  | _ => again

/-- The course of a statement. -/
def ofStmt (env : Env) : Stmt → Course Completion
  | .expr e => do
    let _ ← carryOut (.eval e env)
    pure .normal
  | .declare kind bindings => do
    carryOut (.execBindings kind bindings env)
    pure .normal
  | .function definition => do
    declareFunction definition env
    pure .normal
  | .block body => do
    let inner ← perform (.newScope false env)
    carryOut (.execAll body inner)
  | .branch test yes no => do
    let v ← carryOut (.eval test env)
    if v.truthy then carryOut (.exec yes env)
    else
      match no with
      | some s => carryOut (.exec s env)
      | none => pure .normal
  | .loop init test update body => do
    let inner ← perform (.newScope false env)
    match init with
    | some s => do
      let _ ← carryOut (.exec s inner)
      carryOut (.execLoop test update body inner)
    | none => carryOut (.execLoop test update body inner)
  | .forIn binding subject body => do
    let v ← carryOut (.eval subject env)
    let s ← look
    carryOut (.execEach binding (s.loopKeys v) body env)
  | .forOf binding subject body => do
    let v ← carryOut (.eval subject env)
    let items ← perform (.loopItems v)
    carryOut (.execEach binding items body env)
  | .whileLoop test body => carryOut (.execLoop (some test) none body env)
  | .break => pure .break
  | .continue => pure .continue
  | .return none => pure (.return .undefined)
  | .return (some e) => do
    let v ← carryOut (.eval e env)
    pure (.return v)
  | .empty => pure .normal

/-- The course of an expression that may be absent. -/
def ofOption (env : Env) : Option Expr → Course (Option Value)
  | none => pure none
  | some e => do
    let v ← carryOut (.eval e env)
    pure (some v)

/-- **The course of a job.** -/
def ofJob : (j : Job) → Course j.Result
  | .eval e env => ofExpr env e
  | .evalAll [] _ => pure []
  | .evalAll (e :: rest) env => do
    let v ← carryOut (.eval e env)
    let vs ← carryOut (.evalAll rest env)
    pure (v :: vs)
  | .evalFields [] done _ => pure done
  | .evalFields ((key, e) :: rest) done env => do
    let v ← carryOut (.eval e env)
    carryOut (.evalFields rest (done.put key v) env)
  | .evalPlace e env => ofPlace env e
  | .evalCall callee arguments env => ofCall arguments env callee
  | .callMethod described receiver name arguments => ofMethod described receiver name arguments
  | .visit _ _ [] done => pure done.reverse
  | .visit f whole ((v, key) :: rest) done => do
    let r ← carryOut (.call f [v, key, whole])
    carryOut (.visit f whole rest (r :: done))
  | .call f arguments => do
    let s ← look
    match f with
    | .function r => ofCallable arguments s (s.callable r)
    | other => fail (.notCallable (s.text other))
  | .invoke definition env arguments => do
    let s ← look
    if maxCallDepth ≤ s.depth then fail .callDepth
    else do
      let inner ← enter definition env arguments
      .inCall definition.body inner returned
  | .exec stmt env => ofStmt env stmt
  | .execAll [] _ => pure .normal
  | .execAll (s :: rest) env => do
    let completion ← carryOut (.exec s env)
    match completion with
    | .normal => carryOut (.execAll rest env)
    | other => pure other
  | .execBindings _ [] _ => pure ()
  | .execBindings kind ((name, value) :: rest) env => do
    let v ← ofOption env value
    bindDeclared kind name v env
    carryOut (.execBindings kind rest env)
  | .execLoop test update body env => do
    let goesOn ← carryOut (.evalTest test env)
    if goesOn then do
      let completion ← carryOut (.exec body env)
      nextRound (do
        carryOut (.evalUpdate update env)
        carryOut (.execLoop test update body env)) completion
    else pure .normal
  | .evalTest test env => do
    let v ← ofOption env test
    pure ((v.map Value.truthy).getD true)
  | .evalUpdate update env => do
    let _ ← ofOption env update
    pure ()
  | .execEach _ [] _ _ => pure .normal
  | .execEach binding (item :: rest) body env => do
    let inner ← bindRound binding item env
    let completion ← carryOut (.exec body inner)
    nextRound (carryOut (.execEach binding rest body env)) completion

/-! ### Going through a course -/

/-- Goes through a course. -/
@[simp] def run (runs : (j : Job) → Run j.Result) : Course α → Run α
  | ends a => pure a
  | step o next => o.run >>= fun a => (next a).run runs
  | part j next => runs j >>= fun a => (next a).run runs
  | inCall stmts env next => asCall (runs (.execAll stmts env)) >>= fun c => (next c).run runs

variable (runs : (j : Job) → Run j.Result)

@[simp] theorem run_pure (a : α) : (pure a : Course α).run runs = pure a := rfl

@[simp] theorem run_ite (c : Prop) [Decidable c] (p q : Course α) :
    (if c then p else q).run runs = if c then p.run runs else q.run runs :=
  apply_ite _ c p q

@[simp] theorem run_fail (f : Fault) : (fail f : Course α).run runs = Script.fail f := rfl

@[simp] theorem run_bind (p : Course α) (f : α → Course β) :
    (p >>= f).run runs = p.run runs >>= fun a => (f a).run runs := by
  induction p with
  | ends a => exact (pure_bind _ _).symm
  | step o next ih =>
      show (o.run >>= fun a => (next a >>= f).run runs) = _
      simp only [ih]
      exact (bind_assoc _ _ _).symm
  | part j next ih =>
      show (runs j >>= fun a => (next a >>= f).run runs) = _
      simp only [ih]
      exact (bind_assoc _ _ _).symm
  | inCall stmts env next ih =>
      show (asCall (runs (.execAll stmts env)) >>= fun c => (next c >>= f).run runs) = _
      simp only [ih]
      exact (bind_assoc _ _ _).symm

/-! ### Names -/

theorem run_functionValue (d : Definition) (env : Env) :
    (functionValue d env).run runs = Script.functionValue d env := by
  obtain ⟨name, parameters, rest, body⟩ := d
  cases name <;> simp [functionValue, Script.functionValue, Definition.name, perform]

theorem run_declareFunction (d : Definition) (env : Env) :
    (declareFunction d env).run runs = Script.declareFunction d env := by
  simp [declareFunction, Script.declareFunction, perform]

theorem run_declareFunctions (env : Env) (body : List Stmt) :
    (declareFunctions env body).run runs = Script.declareFunctions env body := by
  induction body with
  | nil => rfl
  | cons first rest ih =>
      cases first with
      | function d => simp [declareFunctions, Script.declareFunctions, run_declareFunction, ih]
      | _ => exact ih

theorem run_bindParameters (env : Env) (names : List String) (arguments : List Value) :
    (bindParameters env names arguments).run runs =
      Script.bindParameters env names arguments := by
  induction names generalizing arguments with
  | nil => rfl
  | cons name names ih => simp [bindParameters, Script.bindParameters, perform, ih]

theorem run_declareVars (env : Env) (names : List String) :
    (declareVars env names).run runs = Script.declareVars env names := by
  induction names with
  | nil => rfl
  | cons name names ih => simp [declareVars, Script.declareVars, perform, ih]

theorem run_enter (d : Definition) (env : Env) (arguments : List Value) :
    (enter d env arguments).run runs = Script.enter d env arguments := by
  obtain ⟨name, parameters, rest, body⟩ := d
  cases rest <;> simp [enter, bindRest, Script.enter, Definition.rest, perform,
    run_bindParameters, run_declareVars, run_declareFunctions]

theorem run_bindRound (binding : LoopBinding) (item : Value) (env : Env) :
    (bindRound binding item env).run runs = Script.bindRound binding item env := by
  obtain ⟨kind, name⟩ := binding
  rcases kind with _ | _ | _ | _ <;>
    simp [bindRound, ownRound, Script.bindRound, perform]

theorem run_bindDeclared (kind : DeclKind) (name : String) (value : Option Value) (env : Env) :
    (bindDeclared kind name value env).run runs = Script.bindDeclared kind name value env := by
  cases kind <;> cases value <;> simp [bindDeclared, Script.bindDeclared, perform]

theorem run_readPlace (env : Env) (place : Place) :
    (readPlace env place).run runs = place.read env := by
  cases place <;> simp [readPlace, Place.read, perform]

theorem run_writePlace (env : Env) (value : Value) (place : Place) :
    (writePlace env value place).run runs = place.write env value := by
  cases place <;> simp [writePlace, Place.write, perform]

/-! ### Jobs -/

variable (n : Nat)

theorem run_ofExpr (e : Expr) (env : Env) :
    (ofExpr env e).run (Job.run n) = Script.eval (n + 1) e env := by
  cases e with
  | unary op operand =>
      rcases typeof_name_or op operand with ⟨word, rfl, rfl⟩ | hn
      · simp [ofExpr, Script.eval, perform]
      · rw [ofExpr, Script.eval]
        · simp [perform, carryOut]
        · exact hn
        · exact hn
  | assign op target value =>
      cases op <;> simp [ofExpr, Script.eval, perform, carryOut,
        run_readPlace, run_writePlace]
  | _ => simp [ofExpr, look, Script.eval, perform, carryOut,
      run_functionValue, run_readPlace, run_writePlace]

theorem run_ofPlace (e : Expr) (env : Env) :
    (ofPlace env e).run (Job.run n) = Script.evalPlace (n + 1) e env := by
  cases e <;> simp [ofPlace, look, Script.evalPlace, perform, carryOut]

theorem run_callOrFail (f : Value) (arguments : List Value) (described : String) :
    (callOrFail f arguments described).run (Job.run n) =
      if f.isFunction then Script.call n f arguments else Script.fail (.notCallable described) := by
  simp [callOrFail, carryOut]

theorem run_ofCall (callee : Expr) (arguments : List Expr) (env : Env) :
    (ofCall arguments env callee).run (Job.run n) =
      Script.evalCall (n + 1) callee arguments env := by
  cases callee <;> simp [ofCall, look, Script.evalCall, perform, carryOut,
    run_callOrFail]

theorem run_ofMethod (described : String) (receiver : Value) (name : String)
    (arguments : List Value) : (ofMethod described receiver name arguments).run (Job.run n) =
      Script.callMethod (n + 1) described receiver name arguments := by
  rw [ofMethod, Script.callMethod]
  rcases Method.of? receiver name with _ | m
  · simp [perform, run_callOrFail]
  · cases m <;> simp [look, perform, carryOut]

theorem run_call (f : Value) (arguments : List Value) :
    (ofJob (.call f arguments)).run (Job.run n) = Script.call (n + 1) f arguments := by
  rw [ofJob, Script.call]
  funext s
  cases f with
  | function r =>
      simp only [look, perform, run_bind, run, Op.run]
      show (ofCallable arguments s (s.callable r)).run (Job.run n) s = _
      rw [run_get_bind]
      rcases s.callable r with ⟨d, env⟩ | m | _ | _ <;>
        simp [ofCallable, perform, carryOut]
  | _ => rfl

theorem run_invoke (d : Definition) (env : Env) (arguments : List Value) :
    (ofJob (.invoke d env arguments)).run (Job.run n) = Script.invoke (n + 1) d env arguments := by
  simp only [ofJob, Script.invoke, look, perform, run_bind, run, run_ite, run_fail, run_enter, Op.run,
    Job.run, bind_pure]
  refine bind_congr fun s => ?_
  split
  · rfl
  · refine bind_congr fun inner => bind_congr fun completion => ?_
    cases completion <;> rfl

theorem run_ofStmt (stmt : Stmt) (env : Env) :
    (ofStmt env stmt).run (Job.run n) = Script.exec (n + 1) stmt env := by
  cases stmt with
  | branch test yes no => cases no <;> simp [ofStmt, Script.exec, carryOut]
  | loop init test update body =>
      cases init <;> simp [ofStmt, Script.exec, perform, carryOut]
  | «return» value => cases value <;> simp [ofStmt, Script.exec, carryOut]
  | _ => simp [ofStmt, look, Script.exec, perform, carryOut,
      run_declareFunction]

theorem run_nextRound (again : Course Completion) (c : Completion) :
    (nextRound again c).run (Job.run n) = match c with
      | .break => pure .normal
      | .return v => pure (.return v)
      | .normal => again.run (Job.run n)
      | .continue => again.run (Job.run n) := by
  cases c <;> rfl

end Course

/-- Without steps no job is done. -/
theorem Job.run_zero (j : Job) : j.run 0 = throw .exhausted := by
  cases j <;> rfl

/-- **A job is done by going through its course.** -/
theorem Job.run_succ (n : Nat) (j : Job) : j.run (n + 1) = (Course.ofJob j).run (Job.run n) := by
  open Course in
  cases j with
  | eval e env => exact (run_ofExpr n e env).symm
  | evalAll es env => cases es <;> simp [ofJob, Script.evalAll, carryOut]
  | evalFields fields done env =>
      cases fields <;> simp [ofJob, Script.evalFields, carryOut]
  | evalPlace e env => exact (run_ofPlace n e env).symm
  | evalCall callee arguments env => exact (run_ofCall n callee arguments env).symm
  | callMethod described receiver name arguments =>
      exact (run_ofMethod n described receiver name arguments).symm
  | visit f whole entries done =>
      cases entries <;> simp [ofJob, Script.visit, carryOut]
  | call f arguments => exact (run_call n f arguments).symm
  | invoke d env arguments => exact (run_invoke n d env arguments).symm
  | exec stmt env => exact (run_ofStmt n stmt env).symm
  | execAll body env =>
      cases body with
      | nil => rfl
      | cons first rest =>
          simp only [ofJob, Script.execAll, carryOut, Course.run_bind, Course.run, Job.run, bind_pure]
          refine bind_congr fun completion => ?_
          cases completion <;> simp [Course.run, Job.run]
  | execBindings kind bindings env =>
      rcases bindings with _ | ⟨⟨name, _ | e⟩, rest⟩ <;>
        simp [ofJob, ofOption, Script.execBindings, carryOut, run_bindDeclared]
  | execLoop test update body env =>
      simp only [ofJob, Script.execLoop, carryOut, Course.run_bind, Course.run_ite, Course.run,
        Course.run_pure, Job.run, bind_pure, run_nextRound]
      refine bind_congr fun goesOn => ?_
      split
      · refine bind_congr fun completion => ?_
        cases completion <;> rfl
      · rfl
  | evalTest test env =>
      cases test <;> simp [ofJob, ofOption, Script.evalTest, carryOut]
  | evalUpdate update env =>
      cases update <;> simp [ofJob, ofOption, Script.evalUpdate, carryOut]
  | execEach binding items body env =>
      cases items with
      | nil => rfl
      | cons item rest =>
          simp only [ofJob, Script.execEach, carryOut, Course.run_bind, Course.run, Job.run,
            bind_pure, run_bindRound, run_nextRound]
          refine bind_congr fun inner => bind_congr fun completion => ?_
          cases completion <;> rfl

end Stencil.Script
