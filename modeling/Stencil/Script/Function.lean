import Stencil.Json.Document
import Stencil.Script.Evaluate
import Stencil.Script.Tree.Parse

/-!
# Script — Functions from outside

A function built from its parameters and the text of its body, or read from the text of its
definition, and called with data.  Each call begins with a store that holds only what the language
provides, and passes the data and the helper object `_`.
-/

namespace Stencil.Script
open Stencil

/-! ### What the language provides -/

/-- The provided functions, in the order of their references. -/
def nativeFunctions : List Native :=
  [.plain .string, .plain .number, .plain .boolean, .plain .escape, .plain .unescape, .each, .map,
   .plain .keys, .plain .values, .plain .size, .plain .isEmpty]

/-- The fields of the helper object. -/
def helperFields : Fields :=
  [("escape", .function 3), ("unescape", .function 4), ("each", .function 5),
   ("map", .function 6), ("keys", .function 7), ("values", .function 8), ("size", .function 9),
   ("isEmpty", .function 10)]

/-- The helper object. -/
def helper : Value := .object 0

/-- The variables of the outermost scope, which are all constant. -/
def globalScope : Scope :=
  [("undefined", ⟨.undefined, false⟩), ("NaN", ⟨.number Number.nan, false⟩),
   ("Infinity", ⟨.number Number.infinity, false⟩), ("String", ⟨.function 0, false⟩),
   ("Number", ⟨.function 1, false⟩), ("Boolean", ⟨.function 2, false⟩), ("_", ⟨helper, false⟩)]

/-- The store that a call begins with. -/
def Store.initial : Store :=
  ⟨#[], #[helperFields], (nativeFunctions.map Callable.native).toArray, #[globalScope], 0⟩

/-- The outermost scope. -/
def globalEnv : Env := [⟨0, true⟩]

/-! ### Data -/

mutual

/-- Makes the value of a document. -/
def importDocument : Json.Document → Run Value
  | .null => pure .null
  | .bool b => pure (.bool b)
  | .number x => pure (.number x)
  | .string s => pure (.string s)
  | .array items => do
    let values ← importItems items
    newArray values.toArray
  | .object members => do
    let fields ← importMembers members
    newObject (fields.foldl (fun all (key, v) => all.put key v) [])

/-- Makes the values of an array. -/
def importItems : List Json.Document → Run (List Value)
  | [] => pure []
  | item :: rest => do
    let v ← importDocument item
    let vs ← importItems rest
    pure (v :: vs)

/-- Makes the values of an object. -/
def importMembers : List (String × Json.Document) → Run (List (String × Value))
  | [] => pure []
  | (key, item) :: rest => do
    let v ← importDocument item
    let vs ← importMembers rest
    pure ((key, v) :: vs)

end

/-! ### Building and calling -/

/-- The function with the given parameters and body.  A parameter that is no name is reported at
the first position. -/
def Definition.build (parameters : List String) (body : String) : Except ParseError Definition :=
  match parameters.find? (!isName ·) with
  | some bad => .error ⟨.invalidParameter bad, .start⟩
  | none => (parseBody body).map fun statements => ⟨none, parameters, none, statements⟩

/-- Steps enough for every call that ends. -/
def ampleSteps : Nat := Nat.pow 2 60

/-- Calls a function with data and the helper object, and makes its result text. -/
def callWith (steps : Nat) (definition : Definition) (data : Json.Document) : Run String := do
  let v ← importDocument data
  let result ← invoke steps definition globalEnv [v, helper]
  let s ← get
  pure (s.text result)

/-- The text that a function returns for data. -/
def Definition.apply (definition : Definition) (steps : Nat) (data : Json.Document) :
    Except Stop String :=
  match callWith steps definition data Store.initial with
  | .ok text _ => .ok text
  | .error e _ => .error e

end Stencil.Script
