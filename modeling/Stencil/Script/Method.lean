import Stencil.Script.Operator
import Stencil.Number.Fixed
import Stencil.Text.CaseMap
import Stencil.Text.Search

/-!
# Script — Methods

The methods that arrays, strings, numbers and truth values have by themselves, apart from those of
arrays that call a function.  Positions in strings count characters.
-/

namespace Stencil.Script
open Stencil

/-- Methods of arrays that call no function. -/
inductive ArrayMethod where
  | push | pop | join | indexOf | includes | slice | concat
  deriving DecidableEq, Repr

/-- Methods of arrays that call a function for each element. -/
inductive ArrayVisit where
  | forEach | map | filter
  deriving DecidableEq, Repr

/-- Methods of strings. -/
inductive StringMethod where
  | toString | toUpperCase | toLowerCase | trim | indexOf | includes | startsWith | endsWith
  | charAt | slice | split | repeat
  deriving DecidableEq, Repr

/-- Methods of numbers. -/
inductive NumberMethod where
  | toString | toFixed
  deriving DecidableEq, Repr

/-- The array method of a name. -/
def ArrayMethod.ofName? : String → Option ArrayMethod
  | "push" => some .push
  | "pop" => some .pop
  | "join" => some .join
  | "toString" => some .join
  | "indexOf" => some .indexOf
  | "includes" => some .includes
  | "slice" => some .slice
  | "concat" => some .concat
  | _ => none

/-- The visiting array method of a name. -/
def ArrayVisit.ofName? : String → Option ArrayVisit
  | "forEach" => some .forEach
  | "map" => some .map
  | "filter" => some .filter
  | _ => none

/-- The string method of a name. -/
def StringMethod.ofName? : String → Option StringMethod
  | "toString" => some .toString
  | "toUpperCase" => some .toUpperCase
  | "toLowerCase" => some .toLowerCase
  | "trim" => some .trim
  | "indexOf" => some .indexOf
  | "includes" => some .includes
  | "startsWith" => some .startsWith
  | "endsWith" => some .endsWith
  | "charAt" => some .charAt
  | "slice" => some .slice
  | "split" => some .split
  | "repeat" => some .repeat
  | _ => none

/-- The number method of a name. -/
def NumberMethod.ofName? : String → Option NumberMethod
  | "toString" => some .toString
  | "toFixed" => some .toFixed
  | _ => none

/-- A method with the receiver it belongs to. -/
inductive Method where
  | array (a : Ref) (m : ArrayMethod)
  | visit (a : Ref) (m : ArrayVisit)
  | string (t : String) (m : StringMethod)
  | number (x : Float) (m : NumberMethod)
  | boolText (b : Bool)

/-- The method of a name that a value has by itself. -/
def Method.of? (receiver : Value) (name : String) : Option Method :=
  match receiver with
  | .array a =>
    match ArrayMethod.ofName? name, ArrayVisit.ofName? name with
    | some m, _ => some (.array a m)
    | none, some m => some (.visit a m)
    | none, none => none
  | .string t => (StringMethod.ofName? name).map (.string t)
  | .number x => (NumberMethod.ofName? name).map (.number x)
  | .bool b => if name = "toString" then some (.boolText b) else none
  | _ => none

/-- The argument at a place, `undefined` if there is none. -/
def argument (arguments : List Value) (i : Nat) : Value :=
  arguments.getD i .undefined

/-! ### Slices -/

/-- A whole number as a place in something of the given length: negative ones count from the end,
and what lies outside is moved to the nearer end. -/
def placeIn (length : Nat) : Number.Whole → Nat
  | .below => 0
  | .above => length
  | .at n => if n < 0 then (length + n).toNat else min n.toNat length

/-- A slice bound as a place, `undefined` standing for a default. -/
def Store.bound (s : Store) (length default : Nat) (v : Value) : Nat :=
  match v with
  | .undefined => default
  | v => placeIn length (s.whole v)

/-- The places where a slice begins and ends. -/
def sliceBounds (s : Store) (length : Nat) (arguments : List Value) : Nat × Nat :=
  let first := s.bound length 0 (argument arguments 0)
  let last := s.bound length length (argument arguments 1)
  (first, max last first)

/-! ### Arrays -/

/-- The elements that an argument adds when it is joined to an array. -/
def Store.spread (s : Store) (v : Value) : Array Value :=
  match v with
  | .array a => s.items a
  | other => #[other]

/-- The place of an element as a number, -1 if there is none. -/
def foundAt (i : Option Nat) : Value :=
  match i with
  | some i => .number (Number.ofNat i)
  | none => .number (-1)

/-- The elements of an array as text with a separator between them. -/
def Store.joined (s : Store) (items : Array Value) (separator : String) : String :=
  separator.intercalate (items.toList.map s.elementText)

/-- Runs a method of an array. -/
def ArrayMethod.run (m : ArrayMethod) (a : Ref) (arguments : List Value) : Run Value := do
  match m with
  | .push =>
    changeItems a (· ++ arguments.toArray)
    let s ← get
    pure (.number (Number.ofNat (s.items a).size))
  | .pop =>
    let s ← get
    let last := (s.items a).back?
    changeItems a Array.pop
    pure (last.getD .undefined)
  | .join =>
    let s ← get
    let separator :=
      match argument arguments 0 with
      | .undefined => ","
      | v => s.text v
    pure (.string (s.joined (s.items a) separator))
  | .indexOf =>
    let s ← get
    let needle := argument arguments 0
    pure (foundAt ((s.items a).findIdx? (strictEqual · needle)))
  | .includes =>
    let s ← get
    let needle := argument arguments 0
    pure (.bool ((s.items a).any (strictEqual · needle)))
  | .slice =>
    let s ← get
    let items := s.items a
    let (first, last) := sliceBounds s items.size arguments
    newArray (items.extract first last)
  | .concat =>
    let s ← get
    newArray (arguments.foldl (fun items v => items ++ s.spread v) (s.items a))

/-! ### Strings -/

/-- The characters of a text from one place to another. -/
def subtext (cs : List Char) (first last : Nat) : String :=
  String.ofList ((cs.take last).drop first)

/-- The character at a place as text, nothing if there is none. -/
def charText (cs : List Char) : Number.Whole → String
  | .at n => if n < 0 then "" else ((cs[n.toNat]?).map Char.toString).getD ""
  | _ => ""

/-- A text repeated as often as a whole number says. -/
def repeated (t : String) : Number.Whole → Run Value
  | .at n =>
    if n < 0 then fail .repeatCount
    else if maxStringBytes < n.toNat * t.utf8ByteSize then fail .stringLength
    else pure (.string (Text.repeatText t n.toNat))
  | _ => fail .repeatCount

/-- Runs a method of a string. -/
def StringMethod.run (m : StringMethod) (t : String) (arguments : List Value) : Run Value := do
  let s ← get
  let first := argument arguments 0
  match m with
  | .toString => pure (.string t)
  | .toUpperCase => pure (.string (Text.upper t))
  | .toLowerCase => pure (.string (Text.lower t))
  | .trim => pure (.string (Text.trim t))
  | .indexOf => pure (foundAt (Text.indexOf? (s.text first).toList t.toList))
  | .includes => pure (.bool (Text.indexOf? (s.text first).toList t.toList).isSome)
  | .startsWith => pure (.bool ((s.text first).toList.isPrefixOf t.toList))
  | .endsWith => pure (.bool ((s.text first).toList.isSuffixOf t.toList))
  | .charAt => pure (.string (charText t.toList (s.whole first)))
  | .slice =>
    let cs := t.toList
    let (first, last) := sliceBounds s cs.length arguments
    pure (.string (subtext cs first last))
  | .split =>
    match first with
    | .undefined => newArray #[.string t]
    | v =>
      let pieces := Text.split (s.text v).toList t.toList
      newArray (pieces.map fun piece => Value.string (String.ofList piece)).toArray
  | .repeat => repeated t (s.whole first)

/-! ### Numbers -/

/-- A number with as many places as a whole number says.  Numbers from 10^21 on, and those that are
not finite, are written as usual. -/
def fixedText (x : Float) : Number.Whole → Run Value
  | .at n =>
    if n < 0 ∨ 100 < n then fail .fixedPlaces
    else if x.isFinite && x.abs < 1e21 then pure (.string (Number.fixed x n.toNat))
    else pure (.string (Number.text x))
  | _ => fail .fixedPlaces

/-- Runs a method of a number. -/
def NumberMethod.run (m : NumberMethod) (x : Float) (arguments : List Value) : Run Value := do
  match m with
  | .toString => pure (.string (Number.text x))
  | .toFixed =>
    let s ← get
    fixedText x (s.whole (argument arguments 0))

end Stencil.Script
