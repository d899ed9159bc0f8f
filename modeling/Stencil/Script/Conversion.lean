import Stencil.Script.Store
import Stencil.Number.Written
import Stencil.Number.Reading
import Stencil.Number.Whole
import Stencil.Text.Blank

/-!
# Script — Conversions

Values as strings, numbers, keys and primitive values.

An array is written as its elements with commas between them, `undefined` and `null` leaving
nothing.  An array can be reached from another through no more steps than there are arrays, unless
one contains itself, and so the count of arrays bounds the recursion.  An array that contains itself
has no text, and is written as nothing.
-/

namespace Stencil.Script
open Stencil

/-! ### Strings -/

/-- A function as text. -/
def Callable.text : Callable → String
  | .closure definition _ => "function " ++ definition.name.getD "" ++ "() \x7b [code] \x7d"
  | .native n => "function " ++ n.name ++ "() \x7b [native code] \x7d"

/-- A value as text, if the given depth is enough for the arrays in it. -/
def Store.textWithin? (s : Store) : (depth : Nat) → Value → Option String
  | _, .undefined => some "undefined"
  | _, .null => some "null"
  | _, .bool b => some (if b then "true" else "false")
  | _, .number x => some (Number.text x)
  | _, .string t => some t
  | 0, .array _ => none
  | depth + 1, .array a =>
    ((s.items a).toList.mapM fun v : Value =>
      if v.isNullish then some "" else s.textWithin? depth v).map ",".intercalate
  | _, .object _ => some "[object Object]"
  | _, .function f => some (s.callable f).text

/-- A value as text. -/
def Store.text (s : Store) (v : Value) : String :=
  (s.textWithin? (s.arrays.size + 1) v).getD ""

/-- An element of a joined array as text. -/
def Store.elementText (s : Store) (v : Value) : String :=
  if v.isNullish then "" else s.text v

/-- The key that a value is when it indexes something. -/
def Store.key (s : Store) (v : Value) : String :=
  s.text v

/-! ### Numbers -/

/-- Whether a character can stand in a decimal numeral. -/
def isNumeralChar (c : Char) : Bool :=
  c.isDigit || c == '+' || c == '-' || c == '.' || c == 'e' || c == 'E'

/-- The value of hexadecimal digits, which may follow a plus sign and must fit in sixty-four
bits. -/
def hexNumber (digits : List Char) : Float :=
  let digits :=
    match digits with
    | '+' :: rest => rest
    | other => other
  match Number.value? 16 digits with
  | some n => if n < UInt64.size then Number.ofNat n else Number.nan
  | none => Number.nan

/-- The number that a text is, blanks at its ends aside: zero if nothing is left, a hexadecimal or
decimal numeral, or an infinity, and otherwise undefined. -/
def textNumber (t : String) : Float :=
  match Text.trimChars t.toList with
  | [] => Number.nearest 0 1
  | '0' :: 'x' :: digits => hexNumber digits
  | '0' :: 'X' :: digits => hexNumber digits
  | cs =>
    if cs == "Infinity".toList || cs == "+Infinity".toList then Number.infinity
    else if cs == "-Infinity".toList then -Number.infinity
    else if cs.all isNumeralChar then (Number.signed? cs).getD Number.nan
    else Number.nan

/-- A value as a number. -/
def Store.number (s : Store) (v : Value) : Float :=
  match v with
  | .undefined => Number.nan
  | .null => Number.nearest 0 1
  | .bool b => if b then Number.nearest 1 1 else Number.nearest 0 1
  | .number x => x
  | .string t => textNumber t
  | .array _ => textNumber (s.text v)
  | .object _ => textNumber (s.text v)
  | .function _ => textNumber (s.text v)

/-- A value as a whole number. -/
def Store.whole (s : Store) (v : Value) : Number.Whole :=
  Number.wholePart (s.number v)

/-! ### Primitive values -/

/-- A value with arrays, objects and functions turned into strings. -/
def Store.primitive (s : Store) (v : Value) : Value :=
  match v with
  | .array _ => .string (s.text v)
  | .object _ => .string (s.text v)
  | .function _ => .string (s.text v)
  | other => other

/-- How a value that cannot be looped over is named. -/
def Store.describe (s : Store) (v : Value) : String :=
  match v with
  | .string t => "\"" ++ t ++ "\""
  | .array _ => v.typeName
  | .object _ => v.typeName
  | .function _ => v.typeName
  | other => s.text other

end Stencil.Script
