import Stencil.Script.Token

/-!
# Script — Parse errors

Why a text is no script, and where.  Each cause has one wording.
-/

namespace Stencil.Script
open Stencil.Text

/-- What is wrong with a text. -/
inductive ParseError.Cause where
  | unterminatedComment
  | invalidHexadecimal
  | invalidToken
  | invalidCharacter (c : Char)
  | invalidHexEscape
  | invalidUnicodeEscape
  | undefinedCodePoint
  | unexpected (kind : TokenKind)
  | nestingTooDeep
  | illegalBreak
  | illegalContinue
  | functionNameMissing
  | initializerMissing
  | invalidAssignment
  | invalidPrefixOperation
  | invalidPostfixOperation
  | invalidParameter (name : String)
  deriving Repr

/-- A cause and the place it was found at. -/
structure ParseError where
  cause : ParseError.Cause
  position : Position
  deriving Repr

/-- The wording of a cause. -/
def ParseError.Cause.message : ParseError.Cause → String
  | .unterminatedComment => "Unterminated comment"
  | .invalidHexadecimal => "Invalid hexadecimal literal"
  | .invalidToken => "Invalid or unexpected token"
  | .invalidCharacter c => "Invalid or unexpected token '" ++ c.toString ++ "'"
  | .invalidHexEscape => "Invalid hexadecimal escape sequence"
  | .invalidUnicodeEscape => "Invalid Unicode escape sequence"
  | .undefinedCodePoint => "Undefined Unicode code-point"
  | .unexpected kind => "Unexpected " ++ kind.description
  | .nestingTooDeep => "Maximum nesting depth exceeded"
  | .illegalBreak => "Illegal break statement"
  | .illegalContinue => "Illegal continue statement"
  | .functionNameMissing => "Function statements require a function name"
  | .initializerMissing => "Missing initializer in const declaration"
  | .invalidAssignment => "Invalid left-hand side in assignment"
  | .invalidPrefixOperation => "Invalid left-hand side expression in prefix operation"
  | .invalidPostfixOperation => "Invalid left-hand side expression in postfix operation"
  | .invalidParameter name => "Invalid parameter name '" ++ name ++ "'"

/-- The wording of an error without its place. -/
def ParseError.message (e : ParseError) : String :=
  e.cause.message

/-- The wording of an error with its place. -/
def ParseError.report (e : ParseError) : String :=
  "SyntaxError: " ++ e.message ++ " (line " ++ Number.natText e.position.line
    ++ ", column " ++ Number.natText e.position.column ++ ")"

end Stencil.Script
