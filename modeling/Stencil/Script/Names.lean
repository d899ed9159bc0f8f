import Stencil.Script.Tree

/-!
# Script — Names

What names a script binds and what names it takes from outside, read off its tree.

* `hoistedNames` are the names that a function body binds for the whole function: those of `var`
  declarations, of `var` loop variables and of function declarations, in blocks and loops too, but
  not in functions inside.
* `freeNames` are the names that a function reads or writes and that neither a declaration around
  the place of use nor the language binds, each once, in the order in which they first appear.
-/

namespace Stencil.Script

/-- The names that the language binds in every script. -/
def globalNames : List String :=
  ["_", "undefined", "NaN", "Infinity", "String", "Number", "Boolean"]

/-! ### Hoisted names -/

mutual

/-- The names that a statement binds for the whole function. -/
def Stmt.hoisted : Stmt → List String
  | .declare .var bindings => bindings.map Prod.fst
  | .function definition => definition.name.toList
  | .block body => hoistedNames body
  | .branch _ yes no => yes.hoisted ++ hoistedIn no
  | .loop init _ _ body => hoistedIn init ++ body.hoisted
  | .forIn binding _ body => loopHoisted binding ++ body.hoisted
  | .forOf binding _ body => loopHoisted binding ++ body.hoisted
  | .whileLoop _ body => body.hoisted
  | _ => []

/-- The names that an optional statement binds for the whole function. -/
def hoistedIn : Option Stmt → List String
  | none => []
  | some s => s.hoisted

/-- The names that statements bind for the whole function, in order and with repeats. -/
def hoistedNames : List Stmt → List String
  | [] => []
  | s :: rest => s.hoisted ++ hoistedNames rest

/-- The name that a loop variable binds for the whole function. -/
def loopHoisted (binding : LoopBinding) : List String :=
  if binding.kind = some .var then [binding.name] else []

end

/-! ### Free names -/

/-- The names that a statement binds in the block it stands in. -/
def Stmt.lexical : Stmt → List String
  | .declare .let bindings => bindings.map Prod.fst
  | .declare .const bindings => bindings.map Prod.fst
  | _ => []

/-- The names that statements bind in their block. -/
def lexicalNames (body : List Stmt) : List String :=
  body.flatMap Stmt.lexical

/-- The names that a loop variable binds in each round. -/
def LoopBinding.lexical (binding : LoopBinding) : List String :=
  match binding.kind with
  | some .let => [binding.name]
  | some .const => [binding.name]
  | _ => []

/-- The names that a function binds in its body. -/
def Definition.bound (d : Definition) : List String :=
  lexicalNames d.body ++ d.parameters ++ d.rest.toList ++ d.name.toList ++ hoistedNames d.body

mutual

/-- The uses of unbound names in an expression, in order and with repeats; `bound` holds the names
that are declared around it. -/
def Expr.uses (bound : List String) : Expr → List String
  | .number _ => []
  | .string _ => []
  | .bool _ => []
  | .null => []
  | .name word => if bound.contains word then [] else [word]
  | .array items => usesAll bound items
  | .object fields => usesFields bound fields
  | .function definition => definition.uses bound
  | .member object _ => object.uses bound
  | .index object key => object.uses bound ++ key.uses bound
  | .call callee arguments => callee.uses bound ++ usesAll bound arguments
  | .unary _ operand => operand.uses bound
  | .update _ _ target => target.uses bound
  | .binary _ left right => left.uses bound ++ right.uses bound
  | .logical _ left right => left.uses bound ++ right.uses bound
  | .conditional test yes no => test.uses bound ++ yes.uses bound ++ no.uses bound
  | .assign _ target value => target.uses bound ++ value.uses bound

/-- The uses in several expressions. -/
def usesAll (bound : List String) : List Expr → List String
  | [] => []
  | e :: rest => e.uses bound ++ usesAll bound rest

/-- The uses in the values of fields. -/
def usesFields (bound : List String) : List (String × Expr) → List String
  | [] => []
  | (_, value) :: rest => value.uses bound ++ usesFields bound rest

/-- The uses in a function. -/
def Definition.uses (bound : List String) : Definition → List String
  | .mk name parameters rest body =>
    usesBody (Definition.bound ⟨name, parameters, rest, body⟩ ++ bound) body

/-- The uses in a statement. -/
def Stmt.uses (bound : List String) : Stmt → List String
  | .expr e => e.uses bound
  | .declare _ bindings => usesBindings bound bindings
  | .function definition => definition.uses bound
  | .block body => usesBody (lexicalNames body ++ bound) body
  | .branch test yes no => test.uses bound ++ yes.uses bound ++ usesStmt bound no
  | .loop init test update body =>
    let inside := (init.map Stmt.lexical).getD [] ++ bound
    usesStmt inside init ++ usesOption inside test ++ usesOption inside update ++ body.uses inside
  | .forIn binding subject body =>
    usesLoop bound binding ++ subject.uses bound ++ body.uses (binding.lexical ++ bound)
  | .forOf binding subject body =>
    usesLoop bound binding ++ subject.uses bound ++ body.uses (binding.lexical ++ bound)
  | .whileLoop test body => test.uses bound ++ body.uses bound
  | .break => []
  | .continue => []
  | .return value => usesOption bound value
  | .empty => []

/-- The uses in an expression that may be absent. -/
def usesOption (bound : List String) : Option Expr → List String
  | none => []
  | some e => e.uses bound

/-- The uses in a statement that may be absent. -/
def usesStmt (bound : List String) : Option Stmt → List String
  | none => []
  | some s => s.uses bound

/-- The uses in the values of a declaration. -/
def usesBindings (bound : List String) : List (String × Option Expr) → List String
  | [] => []
  | (_, value) :: rest => usesOption bound value ++ usesBindings bound rest

/-- The uses in several statements. -/
def usesBody (bound : List String) : List Stmt → List String
  | [] => []
  | s :: rest => s.uses bound ++ usesBody bound rest

/-- The use that a loop makes of a variable it does not declare. -/
def usesLoop (bound : List String) (binding : LoopBinding) : List String :=
  if binding.kind.isNone && !bound.contains binding.name then [binding.name] else []

end

/-- A list without repeats, each element at its first place. -/
def firsts : List String → List String
  | [] => []
  | word :: rest => word :: (firsts rest).filter (· != word)

/-- The names that a function takes from outside. -/
def freeNames (d : Definition) : List String :=
  firsts (d.uses globalNames)

end Stencil.Script
