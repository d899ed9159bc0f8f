import Stencil.Script.Fault
import Stencil.Script.Value

/-!
# Script — The store

The state of a run: the arrays, objects, functions and scopes made so far, and the number of calls
that are open.  A reference is an index, and nothing is ever taken out, so that a reference stays
good for the rest of the run.

A `Run` computes on a store.  It ends with a result, with a fault of the script, or because it was
not given enough steps, and it leaves a store in every case.
-/

namespace Stencil.Script

/-- A variable's value, and whether it can be assigned to. -/
structure Variable where
  value : Value
  mutable : Bool

/-- One scope of the chain at a place in a script.  The scope of a function is where its `var`
declarations are bound. -/
structure Frame where
  scope : Ref
  ofFunction : Bool
  deriving DecidableEq, Repr

/-- The scopes at a place in a script, the innermost first. -/
abbrev Env := List Frame

/-- The variables of a scope. -/
abbrev Scope := List (String × Variable)

namespace Scope

/-- The variable of a name. -/
def get? (scope : Scope) (name : String) : Option Variable :=
  scope.lookup name

/-- Binds a name, in the place of a binding that it has already. -/
def put : Scope → String → Variable → Scope
  | [], name, v => [(name, v)]
  | (n, w) :: rest, name, v => if n = name then (n, v) :: rest else (n, w) :: put rest name v

end Scope

/-- What a function does when it is called: run a definition in the scopes it was made in, or what
the language provides. -/
inductive Callable where
  | closure (definition : Definition) (env : Env)
  | native (n : Native)

instance : Inhabited Callable := ⟨.native (.plain .noop)⟩

/-- The state of a run. -/
structure Store where
  arrays : Array (Array Value)
  objects : Array Fields
  functions : Array Callable
  scopes : Array Scope
  depth : Nat

/-- A store with nothing in it. -/
def Store.empty : Store := ⟨#[], #[], #[], #[], 0⟩

/-- The elements of an array. -/
def Store.items (s : Store) (a : Ref) : Array Value :=
  s.arrays.getD a #[]

/-- The fields of an object. -/
def Store.fields (s : Store) (o : Ref) : Fields :=
  s.objects.getD o []

/-- What a function does. -/
def Store.callable (s : Store) (f : Ref) : Callable :=
  s.functions.getD f default

/-- The variables of a scope. -/
def Store.scope (s : Store) (r : Ref) : Scope :=
  s.scopes.getD r []

/-! ### Runs -/

/-- Why a run ended without a result. -/
inductive Stop where
  | fault (f : Fault)
  | exhausted
  deriving DecidableEq, Repr

/-- A computation on a store. -/
abbrev Run := EStateM Stop Store

/-- Ends the run with a fault. -/
def fail {α : Type} (f : Fault) : Run α :=
  throw (.fault f)

/-- Makes an array. -/
def newArray (items : Array Value) : Run Value :=
  modifyGet fun s => (.array s.arrays.size, { s with arrays := s.arrays.push items })

/-- Makes an object. -/
def newObject (fields : Fields) : Run Value :=
  modifyGet fun s => (.object s.objects.size, { s with objects := s.objects.push fields })

/-- Makes a function. -/
def newFunction (c : Callable) : Run Value :=
  modifyGet fun s => (.function s.functions.size, { s with functions := s.functions.push c })

/-- Opens a scope inside those of `env`. -/
def newScope (ofFunction : Bool) (env : Env) : Run Env :=
  modifyGet fun s =>
    (⟨s.scopes.size, ofFunction⟩ :: env, { s with scopes := s.scopes.push [] })

/-- Changes the elements of an array. -/
def changeItems (a : Ref) (f : Array Value → Array Value) : Run Unit :=
  modify fun s => { s with arrays := s.arrays.modify a f }

/-- Changes the fields of an object. -/
def changeFields (o : Ref) (f : Fields → Fields) : Run Unit :=
  modify fun s => { s with objects := s.objects.modify o f }

/-- Changes the variables of a scope. -/
def changeScope (r : Ref) (f : Scope → Scope) : Run Unit :=
  modify fun s => { s with scopes := s.scopes.modify r f }

/-- Runs an action as one more open call, and closes it again however the action ends. -/
def asCall {α : Type} (action : Run α) : Run α := fun s =>
  match action { s with depth := s.depth + 1 } with
  | .ok result s => .ok result { s with depth := s.depth - 1 }
  | .error e s => .error e { s with depth := s.depth - 1 }

/-! ### Variables -/

/-- The innermost variable of a name, and the scope it is in. -/
def Store.find? (s : Store) (name : String) : Env → Option (Ref × Variable)
  | [] => none
  | frame :: outer =>
    match (s.scope frame.scope).get? name with
    | some v => some (frame.scope, v)
    | none => s.find? name outer

/-- The scope that `var` binds in: that of the innermost function, or the outermost one. -/
def varScope : Env → Ref
  | [] => 0
  | [frame] => frame.scope
  | frame :: outer => if frame.ofFunction then frame.scope else varScope outer

/-- The scope that `let` and `const` bind in. -/
def ownScope : Env → Ref
  | [] => 0
  | frame :: _ => frame.scope

/-- Binds a name in the innermost scope, whatever it was bound to there. -/
def define (env : Env) (name : String) (value : Value) (mutable : Bool) : Run Unit :=
  changeScope (ownScope env) (·.put name ⟨value, mutable⟩)

/-- Binds a name in the innermost scope, where it must not be bound yet. -/
def declare (env : Env) (name : String) (value : Value) (mutable : Bool) : Run Unit := do
  let s ← get
  match (s.scope (ownScope env)).get? name with
  | some _ => fail (.alreadyDeclared name)
  | none => define env name value mutable

/-- Binds a name for the whole function, unless it is bound there already. -/
def declareVar (env : Env) (name : String) : Run Unit := do
  let s ← get
  match (s.scope (varScope env)).get? name with
  | some _ => pure ()
  | none => changeScope (varScope env) (·.put name ⟨.undefined, true⟩)

/-- The value of a name. -/
def lookUp (env : Env) (name : String) : Run Value := do
  let s ← get
  match s.find? name env with
  | some (_, v) => pure v.value
  | none => fail (.notDefined name)

/-- Assigns to the innermost variable of a name, which must not be constant. -/
def assignName (env : Env) (name : String) (value : Value) : Run Unit := do
  let s ← get
  match s.find? name env with
  | some (r, v) =>
    if v.mutable then changeScope r (·.put name ⟨value, true⟩)
    else fail (.constantAssignment name)
  | none => fail (.notDefined name)

end Stencil.Script
