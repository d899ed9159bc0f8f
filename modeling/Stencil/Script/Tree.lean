/-!
# Script — Trees

The syntax trees of the script language: expressions, statements and function definitions.
Parentheses leave no trace.
-/

namespace Stencil.Script

/-- How a name is declared. -/
inductive DeclKind where
  | var
  | let
  | const
  deriving DecidableEq, Repr

/-- Operators before an operand. -/
inductive UnaryOp where
  | not
  | negate
  | plus
  | typeof
  deriving DecidableEq, Repr

/-- Operators that compute both operands. -/
inductive BinaryOp where
  | add | sub | mul | div | rem
  | equal | notEqual | same | notSame
  | less | lessEqual | greater | greaterEqual
  deriving DecidableEq, Repr

/-- Operators that may leave out their right operand. -/
inductive LogicalOp where
  | and
  | or
  | nullish
  deriving DecidableEq, Repr

/-- The variable of a loop over keys or items.  Without a kind the loop assigns to a name that is
bound elsewhere. -/
structure LoopBinding where
  kind : Option DeclKind
  name : String
  deriving DecidableEq, Repr

mutual

/-- Expressions. -/
inductive Expr where
  | number (value : Float)
  | string (value : String)
  | bool (value : Bool)
  | null
  | name (word : String)
  | array (items : List Expr)
  | object (fields : List (String × Expr))
  | function (definition : Definition)
  | member (object : Expr) (key : String)
  | index (object : Expr) (key : Expr)
  | call (callee : Expr) (arguments : List Expr)
  | unary (op : UnaryOp) (operand : Expr)
  | update (increment : Bool) (before : Bool) (target : Expr)
  | binary (op : BinaryOp) (left right : Expr)
  | logical (op : LogicalOp) (left right : Expr)
  | conditional (test yes no : Expr)
  | assign (op : Option BinaryOp) (target value : Expr)

/-- Statements. -/
inductive Stmt where
  | expr (e : Expr)
  | declare (kind : DeclKind) (bindings : List (String × Option Expr))
  | function (definition : Definition)
  | block (body : List Stmt)
  | branch (test : Expr) (yes : Stmt) (no : Option Stmt)
  | loop (init : Option Stmt) (test update : Option Expr) (body : Stmt)
  | forIn (binding : LoopBinding) (subject : Expr) (body : Stmt)
  | forOf (binding : LoopBinding) (subject : Expr) (body : Stmt)
  | whileLoop (test : Expr) (body : Stmt)
  | break
  | continue
  | return (value : Option Expr)
  | empty

/-- Function definitions: an optional name, parameters, an optional parameter for the remaining
arguments, and the body. -/
inductive Definition where
  | mk (name : Option String) (parameters : List String) (rest : Option String) (body : List Stmt)

end

instance : Inhabited Expr := ⟨.null⟩
instance : Inhabited Stmt := ⟨.empty⟩
instance : Inhabited Definition := ⟨⟨none, [], none, []⟩⟩

namespace Definition

/-- The name a function was given. -/
def name : Definition → Option String
  | mk name _ _ _ => name

/-- The parameters. -/
def parameters : Definition → List String
  | mk _ parameters _ _ => parameters

/-- The parameter for the remaining arguments. -/
def rest : Definition → Option String
  | mk _ _ rest _ => rest

/-- The statements of the body. -/
def body : Definition → List Stmt
  | mk _ _ _ body => body

end Definition

/-- Whether an expression can be assigned to. -/
def Expr.isAssignable : Expr → Bool
  | .name _ | .member _ _ | .index _ _ => true
  | _ => false

/-- `typeof` of a name is the only operation whose operand is not computed. -/
theorem typeof_name_or (op : UnaryOp) (operand : Expr) :
    (∃ word, op = .typeof ∧ operand = .name word) ∨
      ∀ word, op = .typeof → operand = .name word → False := by
  by_cases h : ∃ word, op = .typeof ∧ operand = .name word
  · exact .inl h
  · exact .inr fun word hop hoperand => h ⟨word, hop, hoperand⟩

end Stencil.Script
