import Stencil.Script.Conversion
import Stencil.Script.Limits

/-!
# Script — Operators

Equality, order and arithmetic.

`===` compares without conversion, arrays, objects and functions by reference.  `==` holds between
`undefined` and `null`; otherwise it turns truth values into numbers, references into strings when
the other side is primitive, and a string into a number when the other side is one.
-/

namespace Stencil.Script
open Stencil

/-- `===`. -/
def strictEqual : Value → Value → Bool
  | .undefined, .undefined => true
  | .null, .null => true
  | .bool a, .bool b => a == b
  | .number x, .number y => x == y
  | .string s, .string t => s == t
  | .array a, .array b => a == b
  | .object a, .object b => a == b
  | .function a, .function b => a == b
  | _, _ => false

/-- Whether a value is an array, an object or a function. -/
def Value.isReference : Value → Bool
  | .array _ => true
  | .object _ => true
  | .function _ => true
  | _ => false

/-- `==` in at most `rounds` rounds, if they are enough.  Each round but the last converts one
side. -/
def looseEqualWithin? (s : Store) : (rounds : Nat) → Value → Value → Option Bool
  | 0, _, _ => none
  | rounds + 1, v, w =>
    if v.isNullish || w.isNullish then some (v.isNullish && w.isNullish)
    else
      match v, w with
      | .number x, .string t => some (x == textNumber t)
      | .string t, .number y => some (textNumber t == y)
      | .bool _, _ => looseEqualWithin? s rounds (.number (s.number v)) w
      | _, .bool _ => looseEqualWithin? s rounds v (.number (s.number w))
      | _, _ =>
        if v.isReference && !w.isReference then looseEqualWithin? s rounds (s.primitive v) w
        else if w.isReference && !v.isReference then looseEqualWithin? s rounds v (s.primitive w)
        else some (strictEqual v w)

/-- `==`.  No pair of values needs more than three rounds. -/
def looseEqual (s : Store) (v w : Value) : Bool :=
  (looseEqualWithin? s 3 v w).getD false

/-- How two values are ordered, strings by their code points and others as numbers; not at all if
one is no number. -/
def order (s : Store) (v w : Value) : Option Ordering :=
  match s.primitive v, s.primitive w with
  | .string a, .string b => some (if a < b then .lt else if b < a then .gt else .eq)
  | a, b =>
    let x := s.number a
    let y := s.number b
    if x < y then some .lt
    else if y < x then some .gt
    else if x == y then some .eq
    else none

/-- `+`: joins strings if one side is one after conversion to primitive values, and otherwise adds
numbers. -/
def add (v w : Value) : Run Value := do
  let s ← get
  match s.primitive v, s.primitive w with
  | .string a, b => join a (s.text b)
  | a, .string b => join (s.text a) b
  | a, b => pure (.number (s.number a + s.number b))
where
  /-- Joins two strings within the limit. -/
  join (a b : String) : Run Value :=
    if maxStringBytes < a.utf8ByteSize + b.utf8ByteSize then fail .stringLength
    else pure (.string (a ++ b))

/-- The value of a binary operator. -/
def operate (op : BinaryOp) (v w : Value) : Run Value := do
  match op with
  | .add => add v w
  | op =>
    let s ← get
    match op with
    | .sub => pure (.number (s.number v - s.number w))
    | .mul => pure (.number (s.number v * s.number w))
    | .div => pure (.number (s.number v / s.number w))
    | .rem => pure (.number (Number.remainder (s.number v) (s.number w)))
    | .equal => pure (.bool (looseEqual s v w))
    | .notEqual => pure (.bool (!looseEqual s v w))
    | .same => pure (.bool (strictEqual v w))
    | .notSame => pure (.bool (!strictEqual v w))
    | .less => pure (.bool (order s v w == some .lt))
    | .lessEqual => pure (.bool (order s v w == some .lt || order s v w == some .eq))
    | .greater => pure (.bool (order s v w == some .gt))
    | .greaterEqual => pure (.bool (order s v w == some .gt || order s v w == some .eq))
    | .add => add v w

end Stencil.Script
