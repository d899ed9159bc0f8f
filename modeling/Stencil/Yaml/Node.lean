import Stencil.Json.Document
import Stencil.Number.Reading

/-!
# Yaml — Nodes

What a YAML text says: scalars, sequences and mappings.  A plain scalar, one without quotes, is
null, a truth value or a number if it is written like one, and otherwise a string, as every other
scalar is.
-/

namespace Stencil.Yaml
open Stencil

/-- The nodes of a YAML document. -/
inductive Node where
  | scalar (plain : Bool) (text : String)
  | sequence (items : List Node)
  | mapping (entries : List (String × Node))
  deriving Inhabited

/-- The node of what is left out. -/
def Node.absent : Node := .scalar true ""

/-! ### Nesting -/

mutual

/-- How deep sequences and mappings stand inside one another. -/
def Node.depth : Node → Nat
  | .scalar _ _ => 0
  | .sequence items => depthOfItems items + 1
  | .mapping entries => depthOfEntries entries + 1

/-- The depth of the deepest item. -/
def depthOfItems : List Node → Nat
  | [] => 0
  | item :: rest => max item.depth (depthOfItems rest)

/-- The depth of the deepest value. -/
def depthOfEntries : List (String × Node) → Nat
  | [] => 0
  | (_, item) :: rest => max item.depth (depthOfEntries rest)

end

/-- The most levels of sequences and mappings. -/
def maxDepth : Nat := 128

/-! ### Plain scalars -/

/-- The spellings of null. -/
def nullSpellings : List String := ["", "null", "Null", "NULL", "~"]

/-- The spellings of the truth values. -/
def truthSpellings : List (String × Bool) :=
  [("true", true), ("True", true), ("TRUE", true), ("false", false), ("False", false),
   ("FALSE", false)]

/-- The spellings of numbers that are not finite.  Data has no such numbers, and they count as
null. -/
def infiniteSpellings : List String :=
  [".inf", ".Inf", ".INF", "+.inf", "+.Inf", "+.INF", "-.inf", "-.Inf", "-.INF", ".nan", ".NaN",
   ".NAN"]

/-- The value of an integer without sign: decimal, or with `0x`, `0o` or `0b` in another base. -/
def wholeValue? (cs : List Char) : Option Nat :=
  match cs with
  | '0' :: 'x' :: digits => Number.value? 16 digits
  | '0' :: 'o' :: digits => Number.value? 8 digits
  | '0' :: 'b' :: digits => Number.value? 2 digits
  | digits => Number.value? 10 digits

/-- The sign of a number, and what is behind it. -/
def splitSign : List Char → Bool × List Char
  | '-' :: rest => (true, rest)
  | '+' :: rest => (false, rest)
  | rest => (false, rest)

/-- Whether a text has only digits but begins with a zero that is not all of it, which makes it no
number. -/
def hasLeadingZero (cs : List Char) : Bool :=
  match cs with
  | '0' :: digit :: rest => (digit :: rest).all Char.isDigit
  | _ => false

/-- What a plain scalar is if it is an integer.  Integers of more than sixty-four bits are
refused up to a hundred and twenty-eight. -/
def integer? (text : String) : Option (Option Float) :=
  let (negative, digits) := splitSign text.toList
  if hasLeadingZero digits then none
  else
    match wholeValue? digits with
    | none => none
    | some n =>
      if negative then
        if n = 0 then some (some (Number.ofNat 0))
        else if n ≤ Nat.pow 2 63 then some (some (-(Number.ofNat n)))
        else if n ≤ Nat.pow 2 127 then some none
        else none
      else if n < UInt64.size then some (some (Number.ofNat n))
      else if n < Nat.pow 2 128 then some none
      else none

/-- What a plain scalar is if it is a number with a fraction or an exponent. -/
def decimal? (text : String) : Option Float :=
  let (_, digits) := splitSign text.toList
  if hasLeadingZero digits then none
  else
    match Number.signed? text.toList with
    | some x => if x.isFinite then some x else none
    | none => none

/-- The data of a plain scalar; `none` if it is an integer that is too large. -/
def plainDocument (text : String) : Option Json.Document :=
  if nullSpellings.contains text || infiniteSpellings.contains text then some .null
  else
    match truthSpellings.lookup text with
    | some b => some (.bool b)
    | none =>
      match integer? text with
      | some x => x.map .number
      | none =>
        match decimal? text with
        | some x => some (.number x)
        | none => some (.string text)

/-! ### Data -/

mutual

/-- The data of a node. -/
def Node.document? : Node → Option Json.Document
  | .scalar plain text => if plain then plainDocument text else some (.string text)
  | .sequence items => (documentsOfItems items).map .array
  | .mapping entries =>
    (documentsOfEntries entries).map fun all =>
      .object (all.foldl (fun members (key, value) => Json.putMember members key value) [])

/-- The data of several items. -/
def documentsOfItems : List Node → Option (List Json.Document)
  | [] => some []
  | item :: rest => do
    let first ← item.document?
    let others ← documentsOfItems rest
    pure (first :: others)

/-- The data of several entries. -/
def documentsOfEntries : List (String × Node) → Option (List (String × Json.Document))
  | [] => some []
  | (key, item) :: rest => do
    let first ← item.document?
    let others ← documentsOfEntries rest
    pure ((key, first) :: others)

end

end Stencil.Yaml
