import Stencil.Text.Position
import Stencil.Text.Letter
import Stencil.Text.Numeral
import Stencil.Number.Written

/-!
# Script — Tokens

The words of the script language: names, keywords, numbers, strings, punctuators, and the end of
the text.  Each kind has its spelling and the wording by which messages name it.  A name is a
letter, `_` or `$`, followed by letters, numerals, `_` and `$`, and is no keyword.
-/

namespace Stencil.Script
open Stencil.Text

/-- The reserved words. -/
inductive Keyword where
  | var | let | const | if | else | for | in | while | break | continue | return | function
  | true | false | null | typeof
  deriving DecidableEq, Repr

/-- All keywords. -/
def Keyword.all : List Keyword :=
  [.var, .let, .const, .if, .else, .for, .in, .while, .break, .continue, .return, .function,
   .true, .false, .null, .typeof]

/-- How a keyword is written. -/
def Keyword.spelling : Keyword → String
  | .var => "var" | .let => "let" | .const => "const" | .if => "if" | .else => "else"
  | .for => "for" | .in => "in" | .while => "while" | .break => "break"
  | .continue => "continue" | .return => "return" | .function => "function"
  | .true => "true" | .false => "false" | .null => "null" | .typeof => "typeof"

/-- The keyword with a given spelling. -/
def Keyword.ofSpelling? (word : String) : Option Keyword :=
  Keyword.all.find? (·.spelling == word)

/-- The signs. -/
inductive Punctuator where
  | openParen | closeParen | openBrace | closeBrace | openBracket | closeBracket
  | comma | semicolon | dot | ellipsis | question | nullish | colon
  | assign | plusAssign | minusAssign | timesAssign | divideAssign | remainderAssign
  | equal | notEqual | same | notSame | less | lessEqual | greater | greaterEqual
  | plus | minus | times | divide | remainder | not | and | or | increment | decrement
  deriving DecidableEq, Repr

/-- How a punctuator is written. -/
def Punctuator.spelling : Punctuator → String
  | .openParen => "(" | .closeParen => ")" | .openBrace => "\x7b" | .closeBrace => "\x7d"
  | .openBracket => "[" | .closeBracket => "]" | .comma => "," | .semicolon => ";"
  | .dot => "." | .ellipsis => "..." | .question => "?" | .nullish => "??" | .colon => ":"
  | .assign => "=" | .plusAssign => "+=" | .minusAssign => "-=" | .timesAssign => "*="
  | .divideAssign => "/=" | .remainderAssign => "%="
  | .equal => "==" | .notEqual => "!=" | .same => "===" | .notSame => "!=="
  | .less => "<" | .lessEqual => "<=" | .greater => ">" | .greaterEqual => ">="
  | .plus => "+" | .minus => "-" | .times => "*" | .divide => "/" | .remainder => "%"
  | .not => "!" | .and => "&&" | .or => "||" | .increment => "++" | .decrement => "--"

/-- All punctuators, longer spellings first, so that the first one that fits is the longest. -/
def Punctuator.longestFirst : List Punctuator :=
  [.same, .notSame, .ellipsis,
   .equal, .notEqual, .lessEqual, .greaterEqual, .and, .or, .nullish, .increment, .decrement,
   .plusAssign, .minusAssign, .timesAssign, .divideAssign, .remainderAssign,
   .openParen, .closeParen, .openBrace, .closeBrace, .openBracket, .closeBracket,
   .comma, .semicolon, .dot, .question, .colon, .assign, .less, .greater,
   .plus, .minus, .times, .divide, .remainder, .not]

/-- What a token is. -/
inductive TokenKind where
  | name (word : String)
  | keyword (word : Keyword)
  | number (value : Float)
  | string (value : String)
  | sign (mark : Punctuator)
  | stop
  deriving Repr, Inhabited

/-- A token, where it begins, and whether a line ends between the token before and it. -/
structure Token where
  kind : TokenKind
  position : Position
  newlineBefore : Bool
  deriving Repr, Inhabited

/-- How messages name a kind of token. -/
def TokenKind.description : TokenKind → String
  | .name word => "identifier '" ++ word ++ "'"
  | .keyword word => "token '" ++ word.spelling ++ "'"
  | .number value => "number " ++ Number.plain value
  | .string _ => "string"
  | .sign mark => "token '" ++ mark.spelling ++ "'"
  | .stop => "end of input"

/-- Whether the kind is the given sign. -/
def TokenKind.isSign (kind : TokenKind) (expected : Punctuator) : Bool :=
  match kind with
  | .sign actual => actual == expected
  | _ => false

/-- Whether the kind is the given keyword. -/
def TokenKind.isKeyword (kind : TokenKind) (expected : Keyword) : Bool :=
  match kind with
  | .keyword actual => actual == expected
  | _ => false

/-- Whether the kind is the end of the text. -/
def TokenKind.isStop : TokenKind → Bool
  | .stop => true
  | _ => false

/-- Whether a name can begin with a character. -/
def isNameStart (c : Char) : Bool :=
  c == '_' || c == '$' || isLetter c

/-- Whether a name can go on with a character. -/
def isNamePart (c : Char) : Bool :=
  c == '_' || c == '$' || isLetter c || isNumeral c

/-- Whether a text is one name and no keyword. -/
def isName (word : String) : Bool :=
  match word.toList with
  | [] => false
  | first :: rest =>
    isNameStart first && rest.all isNamePart && (Keyword.ofSpelling? word).isNone

end Stencil.Script
