import Stencil.Markup.Entity
import Stencil.Script.Method
import Stencil.Script.Names
import Stencil.Script.Property

/-!
# Script — Running scripts

What expressions, statements and calls do to a store.  Every function here takes a number of steps
that it may go deep, and ends with `exhausted` if that is not enough; all else about a run is
independent of the number.

Operands are computed from left to right.  An assignment finds its target before it computes the
value, and a compound one reads the target before that.  Parameters, the remaining arguments,
hoisted names and the functions declared directly in the body are bound, in this order, before a
body runs.
-/

namespace Stencil.Script
open Stencil

/-- How a statement ended. -/
inductive Completion where
  | normal
  | break
  | continue
  | return (value : Value)

/-- What an assignment writes to, with its parts computed. -/
inductive Place where
  | name (word : String)
  | property (base : Value) (key : String)

/-- Reads what an assignment will write to. -/
def Place.read (env : Env) : Place → Run Value
  | .name word => lookUp env word
  | .property base key => getProperty base key

/-- Writes to the target of an assignment. -/
def Place.write (env : Env) (value : Value) : Place → Run Unit
  | .name word => assignName env word value
  | .property base key => setProperty base key value

/-- How a callee is named when it cannot be called. -/
def Expr.describe : Expr → String
  | .name word => word
  | .member base key => base.describe ++ "." ++ key
  | .index base _ => base.describe ++ "[...]"
  | .call callee _ => callee.describe ++ "(...)"
  | _ => "expression"

/-- The values and keys that a list or an object is visited with. -/
def Store.entries (s : Store) : Value → List (Value × Value)
  | .array a => (s.items a).toList.zipIdx.map fun (v, i) => (v, .number (Number.ofNat i))
  | .object o => (s.fields o).map fun (key, v) => (v, .string key)
  | _ => []

/-- The count of elements, fields or characters. -/
def Store.size (s : Store) : Value → Nat
  | .array a => (s.items a).size
  | .object o => (s.fields o).length
  | .string t => t.length
  | _ => 0

/-- The first `count` indices as keys. -/
def indexKeys (count : Nat) : List Value :=
  (List.range count).map fun i => .string (Number.natText i)

/-- The keys that `for … in` goes over. -/
def Store.loopKeys (s : Store) : Value → List Value
  | .object o => (s.fields o).keys.map .string
  | .array a => indexKeys (s.items a).size
  | .string t => indexKeys t.length
  | _ => []

/-- The items that `for … of` goes over. -/
def loopItems (v : Value) : Run (List Value) := do
  let s ← get
  match v with
  | .array a => pure (s.items a).toList
  | .string t => pure (t.toList.map fun c => .string c.toString)
  | other => fail (.notIterable (s.describe other))

/-- Makes a function of a definition at a place in a script.  A named one sees its own name, as a
constant, in a scope of its own. -/
def functionValue (definition : Definition) (env : Env) : Run Value :=
  match definition.name with
  | none => newFunction (.closure definition env)
  | some name => do
    let inner ← newScope false env
    let f ← newFunction (.closure definition inner)
    define inner name f false
    pure f

/-- Declares a function: binds its name for the whole function around it, and assigns to it. -/
def declareFunction (definition : Definition) (env : Env) : Run Unit := do
  let f ← newFunction (.closure definition env)
  let name := definition.name.getD ""
  declareVar env name
  assignName env name f

/-- Declares the functions that stand directly in a body. -/
def declareFunctions (env : Env) : List Stmt → Run Unit
  | [] => pure ()
  | .function definition :: rest => do
    declareFunction definition env
    declareFunctions env rest
  | _ :: rest => declareFunctions env rest

/-- Binds parameters to arguments, and hands back the arguments that are left. -/
def bindParameters (env : Env) : List String → List Value → Run (List Value)
  | [], arguments => pure arguments
  | name :: names, arguments => do
    define env name (arguments.headD .undefined) true
    bindParameters env names arguments.tail

/-- Binds names for the whole function. -/
def declareVars (env : Env) : List String → Run Unit
  | [] => pure ()
  | name :: names => do
    declareVar env name
    declareVars env names

/-- Opens the scope of a call and binds in it all that is bound before the body runs. -/
def enter (definition : Definition) (env : Env) (arguments : List Value) : Run Env := do
  let inner ← newScope true env
  let left ← bindParameters inner definition.parameters arguments
  match definition.rest with
  | some name => do
    let rest ← newArray left.toArray
    define inner name rest true
  | none => pure ()
  declareVars inner (hoistedNames definition.body)
  declareFunctions inner definition.body
  pure inner

/-- Binds the variable of a loop for one round, and hands back the scopes of that round. -/
def bindRound (binding : LoopBinding) (item : Value) (env : Env) : Run Env := do
  match binding.kind with
  | some .let => do
    let inner ← newScope false env
    define inner binding.name item true
    pure inner
  | some .const => do
    let inner ← newScope false env
    define inner binding.name item false
    pure inner
  | some .var => do
    declareVar env binding.name
    assignName env binding.name item
    pure env
  | none => do
    assignName env binding.name item
    pure env

/-- Carries out one name of a declaration whose value is computed. -/
def bindDeclared (kind : DeclKind) (name : String) (value : Option Value) (env : Env) : Run Unit :=
  match kind with
  | .var => do
    declareVar env name
    match value with
    | some v => assignName env name v
    | none => pure ()
  | .let => declare env name (value.getD .undefined) true
  | .const => declare env name (value.getD .undefined) false

/-- The value of a unary operator. -/
def applyUnary (op : UnaryOp) (v : Value) : Run Value := do
  let s ← get
  match op with
  | .not => pure (.bool (!v.truthy))
  | .negate => pure (.number (-s.number v))
  | .plus => pure (.number (s.number v))
  | .typeof => pure (.string v.typeName)

/-- Whether a logical operator has its left operand as its value. -/
def LogicalOp.keepsLeft (op : LogicalOp) (left : Value) : Bool :=
  match op with
  | .and => !left.truthy
  | .or => left.truthy
  | .nullish => !left.isNullish

/-- The type name of a variable, which need not be bound. -/
def typeOfName (env : Env) (word : String) : Run Value := do
  let s ← get
  match s.find? word env with
  | some (_, v) => pure (.string v.value.typeName)
  | none => pure (.string "undefined")

/-- The value of a provided function that calls no other function. -/
def PlainNative.run (n : PlainNative) (arguments : List Value) : Run Value := do
  let s ← get
  let first := argument arguments 0
  match n with
  | .string => pure (.string (if arguments.isEmpty then "" else s.text first))
  | .number => pure (.number (if arguments.isEmpty then Number.nearest 0 1 else s.number first))
  | .boolean => pure (.bool first.truthy)
  | .escape => pure (.string (if first.isNullish then "" else Markup.escape (s.text first)))
  | .unescape => pure (.string (if first.isNullish then "" else Markup.unescape (s.text first)))
  | .keys => newArray ((s.entries first).map fun (_, key) => Value.string (s.key key)).toArray
  | .values => newArray ((s.entries first).map Prod.fst).toArray
  | .size => pure (.number (Number.ofNat (s.size first)))
  | .isEmpty => pure (.bool (s.size first == 0))
  | .noop => pure .undefined

/-- What a visiting method makes of the elements and of what was returned for them. -/
def ArrayVisit.collect (m : ArrayVisit) (items returned : List Value) : Run Value :=
  match m with
  | .forEach => pure .undefined
  | .map => newArray returned.toArray
  | .filter =>
    newArray (((items.zip returned).filter fun (_, r) => r.truthy).map Prod.fst).toArray

mutual

/-- Computes an expression. -/
def eval : (steps : Nat) → Expr → Env → Run Value
  | 0, _, _ => throw .exhausted
  | _ + 1, .number x, _ => pure (.number x)
  | _ + 1, .string t, _ => pure (.string t)
  | _ + 1, .bool b, _ => pure (.bool b)
  | _ + 1, .null, _ => pure .null
  | _ + 1, .name word, env => lookUp env word
  | n + 1, .array items, env => do
    let values ← evalAll n items env
    newArray values.toArray
  | n + 1, .object fields, env => do
    let all ← evalFields n fields [] env
    newObject all
  | _ + 1, .function definition, env => functionValue definition env
  | n + 1, .member object key, env => do
    let base ← eval n object env
    getProperty base key
  | n + 1, .index object key, env => do
    let base ← eval n object env
    let k ← eval n key env
    let s ← get
    getProperty base (s.key k)
  | n + 1, .call callee arguments, env => evalCall n callee arguments env
  | n + 1, .unary op operand, env =>
    match op, operand with
    | .typeof, .name word => typeOfName env word
    | op, operand => do
      let v ← eval n operand env
      applyUnary op v
  | n + 1, .update increment before target, env => do
    let place ← evalPlace n target env
    let v ← place.read env
    let s ← get
    let old := s.number v
    let new := if increment then old + 1 else old - 1
    place.write env (.number new)
    pure (.number (if before then new else old))
  | n + 1, .binary op left right, env => do
    let v ← eval n left env
    let w ← eval n right env
    operate op v w
  | n + 1, .logical op left right, env => do
    let v ← eval n left env
    if op.keepsLeft v then pure v else eval n right env
  | n + 1, .conditional test yes no, env => do
    let v ← eval n test env
    if v.truthy then eval n yes env else eval n no env
  | n + 1, .assign op target value, env => do
    let place ← evalPlace n target env
    match op with
    | none => do
      let v ← eval n value env
      place.write env v
      pure v
    | some op => do
      let current ← place.read env
      let operand ← eval n value env
      let v ← operate op current operand
      place.write env v
      pure v

/-- Computes expressions from left to right. -/
def evalAll : (steps : Nat) → List Expr → Env → Run (List Value)
  | 0, _, _ => throw .exhausted
  | _ + 1, [], _ => pure []
  | n + 1, e :: rest, env => do
    let v ← eval n e env
    let vs ← evalAll n rest env
    pure (v :: vs)

/-- Computes the fields of an object and adds them to those before. -/
def evalFields : (steps : Nat) → List (String × Expr) → Fields → Env → Run Fields
  | 0, _, _, _ => throw .exhausted
  | _ + 1, [], done, _ => pure done
  | n + 1, (key, e) :: rest, done, env => do
    let v ← eval n e env
    evalFields n rest (done.put key v) env

/-- Computes the parts of an assignment target. -/
def evalPlace : (steps : Nat) → Expr → Env → Run Place
  | 0, _, _ => throw .exhausted
  | _ + 1, .name word, _ => pure (.name word)
  | n + 1, .member object key, env => do
    let base ← eval n object env
    pure (.property base key)
  | n + 1, .index object key, env => do
    let base ← eval n object env
    let k ← eval n key env
    let s ← get
    pure (.property base (s.key k))
  | _ + 1, _, _ => fail .invalidTarget

/-- Computes a call.  A member or an index that is called is a method of the value before it. -/
def evalCall : (steps : Nat) → Expr → List Expr → Env → Run Value
  | 0, _, _, _ => throw .exhausted
  | n + 1, .member object key, arguments, env => do
    let receiver ← eval n object env
    let values ← evalAll n arguments env
    callMethod n (Expr.member object key).describe receiver key values
  | n + 1, .index object key, arguments, env => do
    let receiver ← eval n object env
    let k ← eval n key env
    let s ← get
    let name := s.key k
    let values ← evalAll n arguments env
    callMethod n (Expr.index object key).describe receiver name values
  | n + 1, callee, arguments, env => do
    let f ← eval n callee env
    let values ← evalAll n arguments env
    if f.isFunction then call n f values else fail (.notCallable callee.describe)

/-- Calls the method of a name: one that the receiver has by itself, or the function that it holds
under that name. -/
def callMethod : (steps : Nat) → String → Value → String → List Value → Run Value
  | 0, _, _, _, _ => throw .exhausted
  | n + 1, described, receiver, name, arguments =>
    match Method.of? receiver name with
    | some (.array a m) => m.run a arguments
    | some (.string t m) => m.run t arguments
    | some (.number x m) => m.run x arguments
    | some (.boolText b) => pure (.string (if b then "true" else "false"))
    | some (.visit a m) => do
      let s ← get
      let entries := s.entries (.array a)
      let returned ← visit n (argument arguments 0) receiver entries []
      m.collect (entries.map Prod.fst) returned
    | none => do
      let f ← getProperty receiver name
      if f.isFunction then call n f arguments else fail (.notCallable described)

/-- Calls a function with each value and its key, and lists what was returned. -/
def visit : (steps : Nat) → Value → Value → List (Value × Value) → List Value → Run (List Value)
  | 0, _, _, _, _ => throw .exhausted
  | _ + 1, _, _, [], done => pure done.reverse
  | n + 1, f, whole, (v, key) :: rest, done => do
    let r ← call n f [v, key, whole]
    visit n f whole rest (r :: done)

/-- Calls a value. -/
def call : (steps : Nat) → Value → List Value → Run Value
  | 0, _, _ => throw .exhausted
  | n + 1, f, arguments => do
    let s ← get
    match f with
    | .function r =>
      match s.callable r with
      | .closure definition env => invoke n definition env arguments
      | .native .each => do
        let whole := argument arguments 0
        let _ ← visit n (argument arguments 1) whole (s.entries whole) []
        pure whole
      | .native .map => do
        let whole := argument arguments 0
        let returned ← visit n (argument arguments 1) whole (s.entries whole) []
        newArray returned.toArray
      | .native (.plain m) => m.run arguments
    | other => fail (.notCallable (s.text other))

/-- Runs the body of a function in a scope of its own. -/
def invoke : (steps : Nat) → Definition → Env → List Value → Run Value
  | 0, _, _, _ => throw .exhausted
  | n + 1, definition, env, arguments => do
    let s ← get
    if maxCallDepth ≤ s.depth then fail .callDepth
    else do
      let inner ← enter definition env arguments
      let completion ← asCall (execAll n definition.body inner)
      match completion with
      | .return v => pure v
      | _ => pure .undefined

/-- Carries out a statement. -/
def exec : (steps : Nat) → Stmt → Env → Run Completion
  | 0, _, _ => throw .exhausted
  | n + 1, .expr e, env => do
    let _ ← eval n e env
    pure .normal
  | n + 1, .declare kind bindings, env => do
    execBindings n kind bindings env
    pure .normal
  | _ + 1, .function definition, env => do
    declareFunction definition env
    pure .normal
  | n + 1, .block body, env => do
    let inner ← newScope false env
    execAll n body inner
  | n + 1, .branch test yes no, env => do
    let v ← eval n test env
    if v.truthy then exec n yes env
    else
      match no with
      | some s => exec n s env
      | none => pure .normal
  | n + 1, .loop init test update body, env => do
    let inner ← newScope false env
    match init with
    | some s => do
      let _ ← exec n s inner
      execLoop n test update body inner
    | none => execLoop n test update body inner
  | n + 1, .forIn binding subject body, env => do
    let v ← eval n subject env
    let s ← get
    execEach n binding (s.loopKeys v) body env
  | n + 1, .forOf binding subject body, env => do
    let v ← eval n subject env
    let items ← loopItems v
    execEach n binding items body env
  | n + 1, .whileLoop test body, env => execLoop n (some test) none body env
  | _ + 1, .break, _ => pure .break
  | _ + 1, .continue, _ => pure .continue
  | _ + 1, .return none, _ => pure (.return .undefined)
  | n + 1, .return (some e), env => do
    let v ← eval n e env
    pure (.return v)
  | _ + 1, .empty, _ => pure .normal

/-- Carries out statements one after the other, until one does not end normally. -/
def execAll : (steps : Nat) → List Stmt → Env → Run Completion
  | 0, _, _ => throw .exhausted
  | _ + 1, [], _ => pure .normal
  | n + 1, s :: rest, env => do
    let completion ← exec n s env
    match completion with
    | .normal => execAll n rest env
    | other => pure other

/-- Carries out the names of a declaration. -/
def execBindings : (steps : Nat) → DeclKind → List (String × Option Expr) → Env → Run Unit
  | 0, _, _, _ => throw .exhausted
  | _ + 1, _, [], _ => pure ()
  | n + 1, kind, (name, none) :: rest, env => do
    bindDeclared kind name none env
    execBindings n kind rest env
  | n + 1, kind, (name, some e) :: rest, env => do
    let v ← eval n e env
    bindDeclared kind name (some v) env
    execBindings n kind rest env

/-- Repeats a body while a test holds, with an update after each round. -/
def execLoop : (steps : Nat) → Option Expr → Option Expr → Stmt → Env → Run Completion
  | 0, _, _, _, _ => throw .exhausted
  | n + 1, test, update, body, env => do
    let goesOn ← evalTest n test env
    if goesOn then do
      let completion ← exec n body env
      match completion with
      | .break => pure .normal
      | .return v => pure (.return v)
      | _ => do
        evalUpdate n update env
        execLoop n test update body env
    else pure .normal

/-- Whether a loop goes on; one without a test does. -/
def evalTest : (steps : Nat) → Option Expr → Env → Run Bool
  | 0, _, _ => throw .exhausted
  | _ + 1, none, _ => pure true
  | n + 1, some e, env => do
    let v ← eval n e env
    pure v.truthy

/-- Carries out the update of a loop. -/
def evalUpdate : (steps : Nat) → Option Expr → Env → Run Unit
  | 0, _, _ => throw .exhausted
  | _ + 1, none, _ => pure ()
  | n + 1, some e, env => do
    let _ ← eval n e env
    pure ()

/-- Carries out a body once for each item. -/
def execEach : (steps : Nat) → LoopBinding → List Value → Stmt → Env → Run Completion
  | 0, _, _, _, _ => throw .exhausted
  | _ + 1, _, [], _, _ => pure .normal
  | n + 1, binding, item :: rest, body, env => do
    let inner ← bindRound binding item env
    let completion ← exec n body inner
    match completion with
    | .break => pure .normal
    | .return v => pure (.return v)
    | _ => execEach n binding rest body env

end

end Stencil.Script
