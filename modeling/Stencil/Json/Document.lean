/-!
# Json — Documents

Data as trees of null, truth values, numbers, strings, arrays and objects.  The members of an
object keep the order they were written in; a key that is repeated counts with its first place and
its last value.
-/

namespace Stencil.Json

/-- Data. -/
inductive Document where
  | null
  | bool (b : Bool)
  | number (x : Float)
  | string (s : String)
  | array (items : List Document)
  | object (members : List (String × Document))
  deriving Inhabited

/-- Writes a member.  A key that is present keeps its place. -/
def putMember : List (String × Document) → String → Document → List (String × Document)
  | [], key, value => [(key, value)]
  | (k, v) :: rest, key, value =>
    if k = key then (k, value) :: rest else (k, v) :: putMember rest key value

/-- The value of a member. -/
def Document.get? (d : Document) (key : String) : Option Document :=
  match d with
  | .object members => members.lookup key
  | _ => none

end Stencil.Json
