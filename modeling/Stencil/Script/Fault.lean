/-!
# Script — Faults

What can go wrong when a script runs.  Each fault belongs to one of three kinds and has one
wording.
-/

namespace Stencil.Script

/-- The kinds of faults: a name that is bound nowhere, a value of the wrong type, and a limit or a
range that is exceeded. -/
inductive FaultKind where
  | reference
  | type
  | range
  deriving DecidableEq, Repr

/-- The name of a kind. -/
def FaultKind.name : FaultKind → String
  | .reference => "ReferenceError"
  | .type => "TypeError"
  | .range => "RangeError"

/-- What went wrong. -/
inductive Fault where
  | notDefined (name : String)
  | invalidTarget
  | constantAssignment (name : String)
  | alreadyDeclared (name : String)
  | cannotRead (base key : String)
  | cannotSet (base key : String)
  | notCallable (what : String)
  | notIterable (what : String)
  | callDepth
  | repeatCount
  | fixedPlaces
  | stringLength
  | arrayLength
  deriving DecidableEq, Repr

/-- The kind of a fault. -/
def Fault.kind : Fault → FaultKind
  | .notDefined _ => .reference
  | .invalidTarget => .reference
  | .constantAssignment _ => .type
  | .alreadyDeclared _ => .type
  | .cannotRead _ _ => .type
  | .cannotSet _ _ => .type
  | .notCallable _ => .type
  | .notIterable _ => .type
  | .callDepth => .range
  | .repeatCount => .range
  | .fixedPlaces => .range
  | .stringLength => .range
  | .arrayLength => .range

/-- The wording of a fault. -/
def Fault.message : Fault → String
  | .notDefined name => name ++ " is not defined"
  | .invalidTarget => "Invalid left-hand side in assignment"
  | .constantAssignment name => "Assignment to constant variable '" ++ name ++ "'."
  | .alreadyDeclared name => "Identifier '" ++ name ++ "' has already been declared"
  | .cannotRead base key => "Cannot read properties of " ++ base ++ " (reading '" ++ key ++ "')"
  | .cannotSet base key => "Cannot set properties of " ++ base ++ " (setting '" ++ key ++ "')"
  | .notCallable what => what ++ " is not a function"
  | .notIterable what => what ++ " is not iterable"
  | .callDepth => "Maximum call stack size exceeded"
  | .repeatCount => "String.prototype.repeat: Invalid count value"
  | .fixedPlaces =>
    "Number.prototype.toFixed: toFixed() digits argument must be between 0 and 100"
  | .stringLength => "Invalid string length"
  | .arrayLength => "Invalid array length"

/-- The wording of a fault with its kind. -/
def Fault.report (f : Fault) : String :=
  f.kind.name ++ ": " ++ f.message

end Stencil.Script
