import Stencil.Script.Tree
import Stencil.Json.Quoted
import Stencil.Number.Bits

/-!
# Script — Trees as text

A tree written in parentheses: each node is a word followed by its parts, and `-` stands for a part
that is absent.  Two trees have the same outline only if they are the same, since numbers are
written by their bits and strings in quotes.
-/

namespace Stencil.Script

/-- Parts in parentheses with one space between them. -/
def parenthesized (parts : List String) : String :=
  "(" ++ " ".intercalate parts ++ ")"

/-- A word, or `-` where there is none. -/
def wordOutline (word : Option String) : String :=
  word.getD "-"

/-- The word of a kind of declaration. -/
def DeclKind.word : DeclKind → String
  | .var => "var"
  | .let => "let"
  | .const => "const"

/-- The word of a unary operator. -/
def UnaryOp.word : UnaryOp → String
  | .not => "!"
  | .negate => "neg"
  | .plus => "plus"
  | .typeof => "typeof"

/-- The word of a binary operator. -/
def BinaryOp.word : BinaryOp → String
  | .add => "+"
  | .sub => "-"
  | .mul => "*"
  | .div => "/"
  | .rem => "%"
  | .equal => "=="
  | .notEqual => "!="
  | .same => "==="
  | .notSame => "!=="
  | .less => "<"
  | .lessEqual => "<="
  | .greater => ">"
  | .greaterEqual => ">="

/-- The word of a logical operator. -/
def LogicalOp.word : LogicalOp → String
  | .and => "&&"
  | .or => "||"
  | .nullish => "??"

/-- The word of an increment or decrement, before or after its target. -/
def updateWord (increment before : Bool) : String :=
  (if before then "pre" else "post") ++ (if increment then "++" else "--")

/-- The outline of a loop variable. -/
def LoopBinding.outline (b : LoopBinding) : String :=
  parenthesized [wordOutline (b.kind.map DeclKind.word), b.name]

mutual

/-- The outline of an expression. -/
def Expr.outline : Expr → String
  | .number value => parenthesized ["num", Number.bitsText value]
  | .string value => parenthesized ["str", Json.quoted value]
  | .bool value => if value then "true" else "false"
  | .null => "null"
  | .name word => parenthesized ["id", word]
  | .array items => parenthesized ("array" :: outlines items)
  | .object fields => parenthesized ("object" :: fieldOutlines fields)
  | .function definition => definition.outline
  | .member object key => parenthesized ["member", object.outline, key]
  | .index object key => parenthesized ["index", object.outline, key.outline]
  | .call callee arguments => parenthesized ("call" :: callee.outline :: outlines arguments)
  | .unary op operand => parenthesized [op.word, operand.outline]
  | .update increment before target =>
    parenthesized [updateWord increment before, target.outline]
  | .binary op left right => parenthesized [op.word, left.outline, right.outline]
  | .logical op left right => parenthesized [op.word, left.outline, right.outline]
  | .conditional test yes no => parenthesized ["?", test.outline, yes.outline, no.outline]
  | .assign op target value =>
    parenthesized [((op.map BinaryOp.word).getD "") ++ "=", target.outline, value.outline]

/-- The outlines of several expressions. -/
def outlines : List Expr → List String
  | [] => []
  | e :: rest => e.outline :: outlines rest

/-- The outlines of the fields of an object. -/
def fieldOutlines : List (String × Expr) → List String
  | [] => []
  | (key, value) :: rest =>
    parenthesized [Json.quoted key, value.outline] :: fieldOutlines rest

/-- The outline of a function. -/
def Definition.outline : Definition → String
  | .mk name parameters rest body =>
    parenthesized ("function" :: wordOutline name :: parenthesized parameters
      :: wordOutline rest :: bodyOutlines body)

/-- The outline of a statement. -/
def Stmt.outline : Stmt → String
  | .expr e => parenthesized ["expr", e.outline]
  | .declare kind bindings => parenthesized (kind.word :: bindingOutlines bindings)
  | .function definition => parenthesized ["declare", definition.outline]
  | .block body => parenthesized ("block" :: bodyOutlines body)
  | .branch test yes no => parenthesized ["if", test.outline, yes.outline, partOutline no]
  | .loop init test update body =>
    parenthesized ["for", partOutline init, optionOutline test, optionOutline update, body.outline]
  | .forIn binding subject body =>
    parenthesized ["for-in", binding.outline, subject.outline, body.outline]
  | .forOf binding subject body =>
    parenthesized ["for-of", binding.outline, subject.outline, body.outline]
  | .whileLoop test body => parenthesized ["while", test.outline, body.outline]
  | .break => parenthesized ["break"]
  | .continue => parenthesized ["continue"]
  | .return value => parenthesized ["return", optionOutline value]
  | .empty => parenthesized ["empty"]

/-- The outline of an expression that may be absent. -/
def optionOutline : Option Expr → String
  | none => "-"
  | some e => e.outline

/-- The outline of a statement that may be absent. -/
def partOutline : Option Stmt → String
  | none => "-"
  | some s => s.outline

/-- The outlines of the names of a declaration. -/
def bindingOutlines : List (String × Option Expr) → List String
  | [] => []
  | (name, value) :: rest =>
    parenthesized [name, optionOutline value] :: bindingOutlines rest

/-- The outlines of several statements. -/
def bodyOutlines : List Stmt → List String
  | [] => []
  | s :: rest => s.outline :: bodyOutlines rest

end

end Stencil.Script
