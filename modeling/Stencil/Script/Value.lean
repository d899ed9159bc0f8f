import Stencil.Script.Tree

/-!
# Script — Values

The values that scripts compute with.  Arrays, objects and functions are shared: a value holds a
reference to the store, and two values are the same array when they hold the same reference.
-/

namespace Stencil.Script

/-- A place in the store. -/
abbrev Ref := Nat

/-- Values. -/
inductive Value where
  | undefined
  | null
  | bool (b : Bool)
  | number (x : Float)
  | string (s : String)
  | array (a : Ref)
  | object (o : Ref)
  | function (f : Ref)
  deriving Inhabited

/-- Whether a value is `undefined` or `null`. -/
def Value.isNullish : Value → Bool
  | .undefined => true
  | .null => true
  | _ => false

/-- Whether a value can be called. -/
def Value.isFunction : Value → Bool
  | .function _ => true
  | _ => false

/-- The name of a value's type. -/
def Value.typeName : Value → String
  | .undefined => "undefined"
  | .null => "object"
  | .bool _ => "boolean"
  | .number _ => "number"
  | .string _ => "string"
  | .array _ => "object"
  | .object _ => "object"
  | .function _ => "function"

/-- Whether a value counts as true in a test. -/
def Value.truthy : Value → Bool
  | .undefined => false
  | .null => false
  | .bool b => b
  | .number x => !(x == 0) && !x.isNaN
  | .string s => !s.isEmpty
  | .array _ => true
  | .object _ => true
  | .function _ => true

/-- The functions that the language provides as values, apart from those that call others. -/
inductive PlainNative where
  | string | number | boolean
  | escape | unescape | keys | values | size | isEmpty
  | noop
  deriving DecidableEq, Repr

/-- The functions that the language provides as values.  Two of them call a function for each
element of a list or field of an object. -/
inductive Native where
  | plain (n : PlainNative)
  | each
  | map
  deriving DecidableEq, Repr

/-- The name of a provided function. -/
def Native.name : Native → String
  | .plain .string => "String"
  | .plain .number => "Number"
  | .plain .boolean => "Boolean"
  | .plain .escape => "escape"
  | .plain .unescape => "unescape"
  | .plain .keys => "keys"
  | .plain .values => "values"
  | .plain .size => "size"
  | .plain .isEmpty => "isEmpty"
  | .plain .noop => "noop"
  | .each => "each"
  | .map => "map"

/-! ### Objects -/

/-- The fields of an object in the order in which their keys were first written. -/
abbrev Fields := List (String × Value)

namespace Fields

/-- The value under a key. -/
def get? (fields : Fields) (key : String) : Option Value :=
  fields.lookup key

/-- Writes a value under a key.  A key that is present keeps its place, a new one goes to the
end. -/
def put : Fields → String → Value → Fields
  | [], key, value => [(key, value)]
  | (k, v) :: rest, key, value =>
    if k = key then (k, value) :: rest else (k, v) :: put rest key value

/-- The keys in order. -/
def keys (fields : Fields) : List String :=
  fields.map Prod.fst

theorem get?_put_self (fields : Fields) (key : String) (value : Value) :
    (fields.put key value).get? key = some value := by
  induction fields with
  | nil => simp [put, get?]
  | cons head rest ih =>
    obtain ⟨k, v⟩ := head
    by_cases h : k = key
    · subst h
      simp [put, get?]
    · have h' : (key == k) = false := by simp [Ne.symm h]
      simp only [get?] at ih
      simp [put, get?, h, h', List.lookup_cons, ih]

end Fields

end Stencil.Script
