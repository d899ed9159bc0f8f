import Stencil.Template.Piece

/-!
# Template — The body of a template's function

The statements that a template's pieces become.  The output gathers in one variable: a string
literal is open between two pieces, a directive closes it and opens it again, and what is inside
the directive stands in between.
-/

namespace Stencil

/-- How many directives of each kind there are. -/
structure DirectiveCounts where
  interpolate : Nat
  escape : Nat
  evaluate : Nat
  deriving DecidableEq, Repr

namespace DirectiveCounts

/-- No directives. -/
def zero : DirectiveCounts := ⟨0, 0, 0⟩

/-- One piece more. -/
def add (counts : DirectiveCounts) : Piece → DirectiveCounts
  | .literal _ => counts
  | .directive .interpolate _ => { counts with interpolate := counts.interpolate + 1 }
  | .directive .escape _ => { counts with escape := counts.escape + 1 }
  | .directive .evaluate _ => { counts with evaluate := counts.evaluate + 1 }

/-- The directives among pieces. -/
def ofPieces (pieces : List Piece) : DirectiveCounts :=
  pieces.foldl add zero

end DirectiveCounts

namespace Body

/-- The statements that a piece adds, with a string literal open before and after. -/
def ofPiece : Piece → List Char
  | .literal text => text
  | .directive .interpolate inner =>
    "'+\n((__t=(".toList ++ inner ++ "))==null?'':__t)+\n'".toList
  | .directive .escape inner =>
    "'+\n((__t=(".toList ++ inner ++ "))==null?'':_.escape(__t))+\n'".toList
  | .directive .evaluate inner => "';\n".toList ++ inner ++ "\n__p+='".toList

/-- The statements that write pieces to the output. -/
def ofPieces (pieces : List Piece) : String :=
  String.ofList ("__p+='".toList ++ pieces.flatMap ofPiece ++ "';\n".toList)

/-- The declarations that come first: the output, the value written last, and a function that
writes. -/
def prelude : String :=
  "var __t,__p='',print=function(...__a)\x7b__p+=__a.join('');\x7d;\n"

/-- What comes last: the output is the result. -/
def epilogue : String :=
  "return __p;\n"

/-- The body that writes pieces and returns the output. -/
def ofTemplate (pieces : List Piece) : String :=
  prelude ++ ofPieces pieces ++ epilogue

end Body

end Stencil
