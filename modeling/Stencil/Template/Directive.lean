/-!
# Template — Directives

The three kinds of directives: an expression whose value is written with its special characters
escaped, an expression whose value is written as it is, and statements that are run.
-/

namespace Stencil

/-- The kinds of directives. -/
inductive Directive where
  | escape
  | interpolate
  | evaluate
  deriving DecidableEq, Repr

namespace Directive

/-- All kinds; where two could begin at one place, the one that comes first does. -/
def all : List Directive :=
  [escape, interpolate, evaluate]

/-- The name of a kind. -/
def name : Directive → String
  | escape => "escape"
  | interpolate => "interpolate"
  | evaluate => "evaluate"

end Directive

end Stencil
