import Stencil.Script.Conversion
import Stencil.Script.Limits

/-!
# Script — Properties

Reading and writing the properties of values.  An array has its elements under their indices,
written in decimal without leading zeros, and its length; a string has its characters and its
length; an object has its fields.  Other values have no properties, and `undefined` and `null`
cannot be asked for any.
-/

namespace Stencil.Script
open Stencil

/-- The index that a key is. -/
def arrayIndex? (key : String) : Option Nat :=
  match Number.value? 10 key.toList with
  | some n => if n < UInt64.size ∧ Number.natText n = key then some n else none
  | none => none

/-- Reads a property of an array. -/
def itemAt (items : Array Value) (key : String) : Value :=
  if key = "length" then .number (Number.ofNat items.size)
  else
    match arrayIndex? key with
    | some i => items.getD i .undefined
    | none => .undefined

/-- Reads a property of a string. -/
def characterAt (t : String) (key : String) : Value :=
  if key = "length" then .number (Number.ofNat t.length)
  else
    match (arrayIndex? key).bind (t.toList[·]?) with
    | some c => .string c.toString
    | none => .undefined

/-- Reads a property. -/
def getProperty (base : Value) (key : String) : Run Value := do
  let s ← get
  match base with
  | .undefined => fail (.cannotRead "undefined" key)
  | .null => fail (.cannotRead "null" key)
  | .object o => pure (((s.fields o).get? key).getD .undefined)
  | .array a => pure (itemAt (s.items a) key)
  | .string t => pure (characterAt t key)
  | .bool _ => pure .undefined
  | .number _ => pure .undefined
  | .function _ => pure .undefined

/-- An array cut or filled with `undefined` to a length. -/
def resize (items : Array Value) (length : Nat) : Array Value :=
  items.take length ++ Array.replicate (length - items.size) Value.undefined

/-- An array with a value at an index, the gap before it filled with `undefined`. -/
def setItem (items : Array Value) (i : Nat) (value : Value) : Array Value :=
  if i < items.size then items.setIfInBounds i value
  else (items ++ Array.replicate (i - items.size) Value.undefined).push value

/-- The length that a number sets an array to, if it is one that an array can have. -/
def newLength? (x : Float) : Option Nat :=
  match Number.wholePart x with
  | .at n =>
    if 0 ≤ n ∧ n ≤ maxArrayElements ∧ Number.isWhole x then some n.toNat else none
  | _ => none

/-- Writes a property.  Keys of an array that are neither an index nor its length are passed over,
as are properties of values that have none. -/
def setProperty (base : Value) (key : String) (value : Value) : Run Unit := do
  match base with
  | .undefined => fail (.cannotSet "undefined" key)
  | .null => fail (.cannotSet "null" key)
  | .object o => changeFields o (·.put key value)
  | .array a =>
    match arrayIndex? key with
    | some i =>
      let s ← get
      let size := (s.items a).size
      if size ≤ i ∧ maxArrayElements ≤ i then fail .arrayLength
      else changeItems a (setItem · i value)
    | none =>
      if key = "length" then do
        let s ← get
        match newLength? (s.number value) with
        | some length => changeItems a (resize · length)
        | none => fail .arrayLength
      else pure ()
  | _ => pure ()

end Stencil.Script
