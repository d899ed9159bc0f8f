import Stencil.Script.Limits
import Stencil.Script.Tree
import Stencil.Script.Token.Scan

/-!
# Script — Reading trees

A parser for the script language, from tokens to trees.  Statements, assignments and unary
expressions nest, and each level of nesting is paid for out of a fixed room: `levels room` holds
the three productions that may still open `room` levels, and each is written over those of
`levels (room - 1)`.  So the depth of the recursion is the limit of the language, and the recursion
ends because the room does.  Repetition inside a level (statement lists, operator chains, argument
lists) is bounded by the number of tokens, since each round takes at least one.

A semicolon may be left out before a closing brace, at the end, and where a line ends.
-/

namespace Stencil.Script
open Stencil.Text

/-- Reads from a list of tokens that ends with `stop`. -/
abbrev Parser := StateT (List Token) (Except ParseError)

namespace Parser

/-! ### The next token -/

/-- The next token.  At the end it is the `stop` there, however often it is asked for. -/
def peek : Parser Token := do
  let rest ← get
  match rest with
  | [] => pure ⟨.stop, .start, false⟩
  | token :: _ => pure token

/-- The kind of the next token. -/
def peekKind : Parser TokenKind := do
  let token ← peek
  pure token.kind

/-- The kind of the token `ahead` places after the next one, or of the last one. -/
def kindAhead (ahead : Nat) : Parser TokenKind := do
  let rest ← get
  match rest.drop ahead with
  | [] => pure .stop
  | token :: _ => pure token.kind

/-- Takes the next token; the `stop` stays. -/
def advance : Parser Token := do
  let rest ← get
  match rest with
  | [] => pure ⟨.stop, .start, false⟩
  | token :: rest =>
    if token.kind.isStop then pure token
    else do
      set rest
      pure token

/-- Fails at the next token. -/
def failHere {α : Type} (cause : ParseError.Cause) : Parser α := do
  let token ← peek
  throw ⟨cause, token.position⟩

/-- Fails because the next token cannot stand here. -/
def unexpected {α : Type} : Parser α := do
  let kind ← peekKind
  failHere (.unexpected kind)

/-- Whether the next token is the given sign. -/
def atSign (sign : Punctuator) : Parser Bool := do
  let kind ← peekKind
  pure (kind.isSign sign)

/-- Whether no token is left. -/
def atStop : Parser Bool := do
  let kind ← peekKind
  pure kind.isStop

/-- Takes the given sign if it is next. -/
def acceptSign (sign : Punctuator) : Parser Bool := do
  let here ← atSign sign
  if here then do
    let _ ← advance
    pure true
  else pure false

/-- Takes the given keyword if it is next. -/
def acceptKeyword (word : Keyword) : Parser Bool := do
  let kind ← peekKind
  if kind.isKeyword word then do
    let _ ← advance
    pure true
  else pure false

/-- Takes the given sign, which must be next. -/
def expectSign (sign : Punctuator) : Parser Unit := do
  let here ← acceptSign sign
  if here then pure () else unexpected

/-- Takes a name if one is next. -/
def acceptName : Parser (Option String) := do
  let kind ← peekKind
  match kind with
  | .name word => do
    let _ ← advance
    pure (some word)
  | _ => pure none

/-- Takes a name, which must be next. -/
def expectName : Parser String := do
  let word? ← acceptName
  match word? with
  | some word => pure word
  | none => unexpected

/-- Requires that no token is left. -/
def expectStop : Parser Unit := do
  let done ← atStop
  if done then pure () else unexpected

/-- Whether a statement may end before the next token. -/
def atStatementEnd : Parser Bool := do
  let token ← peek
  pure (token.kind.isSign .closeBrace || token.kind.isStop || token.newlineBefore)

/-- Takes the semicolon after a statement, or nothing where it may be left out. -/
def endStatement : Parser Unit := do
  let taken ← acceptSign .semicolon
  if taken then pure ()
  else do
    let ends ← atStatementEnd
    if ends then pure () else unexpected

/-- The productions that open one level of nesting each.  A statement is told whether it stands in
a loop of its function. -/
structure Level where
  statement : (inLoop : Bool) → Parser Stmt
  assignment : Parser Expr
  unary : Parser Expr

/-! ### Lists and functions -/

/-- Statements up to a closing brace or the end; `bound` is no less than their number. -/
def statements (level : Level) (inLoop : Bool) : (bound : Nat) → Parser (List Stmt)
  | 0 => pure []
  | bound + 1 => do
    let closed ← atSign .closeBrace
    let done ← atStop
    if closed || done then pure []
    else do
      let first ← level.statement inLoop
      let others ← statements level inLoop bound
      pure (first :: others)

/-- Statements in braces. -/
def braced (level : Level) (inLoop : Bool) (bound : Nat) : Parser (List Stmt) := do
  expectSign .openBrace
  let body ← statements level inLoop bound
  expectSign .closeBrace
  pure body

/-- Parameters up to the closing parenthesis, which is left; the last one may take the rest. -/
def parameters : (bound : Nat) → Parser (List String × Option String)
  | 0 => pure ([], none)
  | bound + 1 => do
    let closed ← atSign .closeParen
    if closed then pure ([], none)
    else do
      let takesRest ← acceptSign .ellipsis
      if takesRest then do
        let rest ← expectName
        pure ([], some rest)
      else do
        let first ← expectName
        let more ← acceptSign .comma
        if more then do
          let (others, rest) ← parameters bound
          pure (first :: others, rest)
        else pure ([first], none)

/-- A function from its parameters on. -/
def definitionRest (level : Level) (bound : Nat) (name : Option String) : Parser Definition := do
  expectSign .openParen
  let (names, rest) ← parameters bound
  expectSign .closeParen
  let body ← braced level false bound
  pure ⟨name, names, rest, body⟩

/-- Expressions separated by commas up to a closing sign, which is left; a comma may stand before
it. -/
def items (level : Level) (close : Punctuator) : (bound : Nat) → Parser (List Expr)
  | 0 => pure []
  | bound + 1 => do
    let closed ← atSign close
    if closed then pure []
    else do
      let first ← level.assignment
      let more ← acceptSign .comma
      if more then do
        let others ← items level close bound
        pure (first :: others)
      else pure [first]

/-- Expressions separated by commas, and the closing sign after them. -/
def itemsClosed (level : Level) (bound : Nat) (close : Punctuator) : Parser (List Expr) := do
  let all ← items level close bound
  expectSign close
  pure all

/-- The key of a field, and whether it can stand for its value as well. -/
def fieldKey : TokenKind → Option (String × Bool)
  | .name word => some (word, true)
  | .keyword word => some (word.spelling, false)
  | .string value => some (value, false)
  | .number value => some (Number.text value, false)
  | _ => none

/-- One field of an object. -/
def field (level : Level) : Parser (String × Expr) := do
  let kind ← peekKind
  match fieldKey kind with
  | none => unexpected
  | some (key, shorthand) => do
    let _ ← advance
    let valued ← acceptSign .colon
    if valued then do
      let value ← level.assignment
      pure (key, value)
    else if shorthand then pure (key, .name key)
    else unexpected

/-- Fields separated by commas up to the closing brace, which is left. -/
def fields (level : Level) : (bound : Nat) → Parser (List (String × Expr))
  | 0 => pure []
  | bound + 1 => do
    let closed ← atSign .closeBrace
    if closed then pure []
    else do
      let first ← field level
      let more ← acceptSign .comma
      if more then do
        let others ← fields level bound
        pure (first :: others)
      else pure [first]

/-! ### Expressions -/

/-- Literals, names, functions, parentheses, arrays and objects. -/
def primary (level : Level) (bound : Nat) : Parser Expr := do
  let token ← advance
  match token.kind with
  | .number value => pure (.number value)
  | .string value => pure (.string value)
  | .name word => pure (.name word)
  | .keyword .true => pure (.bool true)
  | .keyword .false => pure (.bool false)
  | .keyword .null => pure .null
  | .keyword .function => do
    let name ← acceptName
    let definition ← definitionRest level bound name
    pure (.function definition)
  | .sign .openParen => do
    let inner ← level.assignment
    expectSign .closeParen
    pure inner
  | .sign .openBracket => do
    let all ← itemsClosed level bound .closeBracket
    pure (.array all)
  | .sign .openBrace => do
    let all ← fields level bound
    expectSign .closeBrace
    pure (.object all)
  | kind => throw ⟨.unexpected kind, token.position⟩

/-- The word after a dot. -/
def memberName : TokenKind → Option String
  | .name word => some word
  | .keyword word => some word.spelling
  | _ => none

/-- Members, indices and calls after an expression. -/
def suffixes (level : Level) (bound : Nat) : (rounds : Nat) → Expr → Parser Expr
  | 0, e => pure e
  | rounds + 1, e => do
    let dot ← acceptSign .dot
    if dot then do
      let kind ← peekKind
      match memberName kind with
      | none => unexpected
      | some key => do
        let _ ← advance
        suffixes level bound rounds (.member e key)
    else do
      let bracket ← acceptSign .openBracket
      if bracket then do
        let key ← level.assignment
        expectSign .closeBracket
        suffixes level bound rounds (.index e key)
      else do
        let paren ← acceptSign .openParen
        if paren then do
          let arguments ← itemsClosed level bound .closeParen
          suffixes level bound rounds (.call e arguments)
        else pure e

/-- An expression with an optional `++` or `--` after it on the same line. -/
def postfixed (level : Level) (bound : Nat) : Parser Expr := do
  let first ← primary level bound
  let e ← suffixes level bound bound first
  let token ← peek
  let increment := token.kind.isSign .increment
  if (increment || token.kind.isSign .decrement) && !token.newlineBefore then
    if e.isAssignable then do
      let _ ← advance
      pure (.update increment false e)
    else failHere .invalidPostfixOperation
  else pure e

/-- The operator that a token is before an operand. -/
def unaryOp : TokenKind → Option UnaryOp
  | .sign .not => some .not
  | .sign .minus => some .negate
  | .sign .plus => some .plus
  | .keyword .typeof => some .typeof
  | _ => none

/-- An operand with the operators before it. -/
def unaryBody (level : Level) (bound : Nat) : Parser Expr := do
  let kind ← peekKind
  match unaryOp kind with
  | some op => do
    let _ ← advance
    let operand ← level.unary
    pure (.unary op operand)
  | none =>
    let increment := kind.isSign .increment
    if increment || kind.isSign .decrement then do
      let _ ← advance
      let target ← level.unary
      if target.isAssignable then pure (.update increment true target)
      else failHere .invalidPrefixOperation
    else postfixed level bound

/-- An operator between two operands. -/
inductive InfixOp where
  | binary (op : BinaryOp)
  | logical (op : LogicalOp)
  deriving DecidableEq, Repr

/-- The operator that a sign is between two operands, and how strongly it binds. -/
def infixOp : Punctuator → Option (Nat × InfixOp)
  | .nullish => some (1, .logical .nullish)
  | .or => some (2, .logical .or)
  | .and => some (3, .logical .and)
  | .equal => some (4, .binary .equal)
  | .notEqual => some (4, .binary .notEqual)
  | .same => some (4, .binary .same)
  | .notSame => some (4, .binary .notSame)
  | .less => some (5, .binary .less)
  | .lessEqual => some (5, .binary .lessEqual)
  | .greater => some (5, .binary .greater)
  | .greaterEqual => some (5, .binary .greaterEqual)
  | .plus => some (6, .binary .add)
  | .minus => some (6, .binary .sub)
  | .times => some (7, .binary .mul)
  | .divide => some (7, .binary .div)
  | .remainder => some (7, .binary .rem)
  | _ => none

/-- The operator of the given strength that a token is. -/
def infixOfStrength (strength : Nat) : TokenKind → Option InfixOp
  | .sign sign =>
    match infixOp sign with
    | some (actual, op) => if actual = strength then some op else none
    | none => none
  | _ => none

/-- The tree of an operator and its operands. -/
def InfixOp.apply : InfixOp → Expr → Expr → Expr
  | .binary op, left, right => .binary op left right
  | .logical op, left, right => .logical op left right

/-- Operators of one strength and their right operands after a left operand, grouped from the
left. -/
def chain (operand : Parser Expr) (strength : Nat) : (rounds : Nat) → Expr → Parser Expr
  | 0, left => pure left
  | rounds + 1, left => do
    let kind ← peekKind
    match infixOfStrength strength kind with
    | none => pure left
    | some op => do
      let _ ← advance
      let right ← operand
      chain operand strength rounds (op.apply left right)

/-- Operands joined by operators of the `count` greatest strengths, the stronger ones first. -/
def infixed (level : Level) (bound : Nat) : (count : Nat) → Parser Expr
  | 0 => level.unary
  | count + 1 => do
    let first ← infixed level bound count
    chain (infixed level bound count) (7 - count) bound first

/-- An infix expression, or a choice between two expressions. -/
def conditional (level : Level) (bound : Nat) : Parser Expr := do
  let test ← infixed level bound 7
  let chooses ← acceptSign .question
  if chooses then do
    let yes ← level.assignment
    expectSign .colon
    let no ← level.assignment
    pure (.conditional test yes no)
  else pure test

/-- The operator of an assignment: `none` for `=`, and the operator that a compound one computes
with. -/
def assignOp : TokenKind → Option (Option BinaryOp)
  | .sign .assign => some none
  | .sign .plusAssign => some (some .add)
  | .sign .minusAssign => some (some .sub)
  | .sign .timesAssign => some (some .mul)
  | .sign .divideAssign => some (some .div)
  | .sign .remainderAssign => some (some .rem)
  | _ => none

/-- An assignment, grouped from the right, or an expression without one. -/
def assignmentBody (level : Level) (bound : Nat) : Parser Expr := do
  let left ← conditional level bound
  let kind ← peekKind
  match assignOp kind with
  | none => pure left
  | some op =>
    if left.isAssignable then do
      let _ ← advance
      let value ← level.assignment
      pure (.assign op left value)
    else failHere .invalidAssignment

/-! ### Statements -/

/-- The kind of declaration that a keyword begins. -/
def declKind : TokenKind → Option DeclKind
  | .keyword .var => some .var
  | .keyword .let => some .let
  | .keyword .const => some .const
  | _ => none

/-- One name of a declaration with its value; only constants must have one. -/
def binding (level : Level) (kind : DeclKind) : Parser (String × Option Expr) := do
  let name ← expectName
  let valued ← acceptSign .assign
  if valued then do
    let value ← level.assignment
    pure (name, some value)
  else if kind = .const then failHere .initializerMissing
  else pure (name, none)

/-- The names of a declaration, at least one. -/
def bindings (level : Level) (kind : DeclKind) :
    (bound : Nat) → Parser (List (String × Option Expr))
  | 0 => pure []
  | bound + 1 => do
    let first ← binding level kind
    let more ← acceptSign .comma
    if more then do
      let others ← bindings level kind bound
      pure (first :: others)
    else pure [first]

/-- A branch from its keyword on. -/
def branchBody (level : Level) (inLoop : Bool) : Parser Stmt := do
  let _ ← advance
  expectSign .openParen
  let test ← level.assignment
  expectSign .closeParen
  let yes ← level.statement inLoop
  let hasElse ← acceptKeyword .else
  if hasElse then do
    let no ← level.statement inLoop
    pure (.branch test yes (some no))
  else pure (.branch test yes none)

/-- The two words between a loop variable and what the loop goes over. -/
inductive LoopWord where
  | in
  | of

/-- The loop word that a token is. -/
def loopWord : TokenKind → Option LoopWord
  | .keyword .in => some .in
  | .name "of" => some .of
  | _ => none

/-- Takes a loop variable and the word after it, if both are next. -/
def loopBinding : Parser (Option (LoopBinding × LoopWord)) := do
  let kind ← peekKind
  let declared := declKind kind
  let skipped := if declared.isSome then 1 else 0
  let nameKind ← kindAhead skipped
  let wordKind ← kindAhead (skipped + 1)
  match nameKind, loopWord wordKind with
  | .name word, some loop => do
    if declared.isSome then
      let _ ← advance
    let _ ← advance
    let _ ← advance
    pure (some (⟨declared, word⟩, loop))
  | _, _ => pure none

/-- The first part of a loop header with three parts. -/
def loopInit (level : Level) (bound : Nat) : Parser (Option Stmt) := do
  let kind ← peekKind
  if kind.isSign .semicolon then pure none
  else
    match declKind kind with
    | some declared => do
      let _ ← advance
      let all ← bindings level declared bound
      pure (some (.declare declared all))
    | none => do
      let e ← level.assignment
      pure (some (.expr e))

/-- An expression, unless the given sign stands in its place. -/
def unlessSign (level : Level) (sign : Punctuator) : Parser (Option Expr) := do
  let absent ← atSign sign
  if absent then pure none
  else do
    let e ← level.assignment
    pure (some e)

/-- A `for` loop of any form from its keyword on. -/
def forBody (level : Level) (bound : Nat) : Parser Stmt := do
  let _ ← advance
  expectSign .openParen
  let header ← loopBinding
  match header with
  | some (target, word) => do
    let subject ← level.assignment
    expectSign .closeParen
    let body ← level.statement true
    match word with
    | .in => pure (.forIn target subject body)
    | .of => pure (.forOf target subject body)
  | none => do
    let init ← loopInit level bound
    expectSign .semicolon
    let test ← unlessSign level .semicolon
    expectSign .semicolon
    let update ← unlessSign level .closeParen
    expectSign .closeParen
    let body ← level.statement true
    pure (.loop init test update body)

/-- A `while` loop from its keyword on. -/
def whileBody (level : Level) : Parser Stmt := do
  let _ ← advance
  expectSign .openParen
  let test ← level.assignment
  expectSign .closeParen
  let body ← level.statement true
  pure (.whileLoop test body)

/-- A jump out of the present round of a loop, from its keyword on. -/
def jump (inLoop : Bool) (cause : ParseError.Cause) (stmt : Stmt) : Parser Stmt :=
  if inLoop then do
    let _ ← advance
    endStatement
    pure stmt
  else failHere cause

/-- A `return` from its keyword on. -/
def returnBody (level : Level) : Parser Stmt := do
  let _ ← advance
  let semicolon ← atSign .semicolon
  let ends ← atStatementEnd
  let value ←
    if semicolon || ends then pure none
    else do
      let e ← level.assignment
      pure (some e)
  endStatement
  pure (.return value)

/-- A function declaration from its keyword on. -/
def functionBody (level : Level) (bound : Nat) : Parser Stmt := do
  let _ ← advance
  let name? ← acceptName
  match name? with
  | none => failHere .functionNameMissing
  | some name => do
    let definition ← definitionRest level bound (some name)
    pure (.function definition)

/-- A statement of any form. -/
def statementBody (level : Level) (bound : Nat) (inLoop : Bool) : Parser Stmt := do
  let kind ← peekKind
  match kind with
  | .sign .openBrace => do
    let body ← braced level inLoop bound
    pure (.block body)
  | .sign .semicolon => do
    let _ ← advance
    pure .empty
  | .keyword .if => branchBody level inLoop
  | .keyword .for => forBody level bound
  | .keyword .while => whileBody level
  | .keyword .break => jump inLoop .illegalBreak .break
  | .keyword .continue => jump inLoop .illegalContinue .continue
  | .keyword .return => returnBody level
  | .keyword .function => functionBody level bound
  | kind =>
    match declKind kind with
    | some declared => do
      let _ ← advance
      let all ← bindings level declared bound
      endStatement
      pure (.declare declared all)
    | none => do
      let e ← level.assignment
      endStatement
      pure (.expr e)

/-! ### Levels -/

/-- The productions that may open `room` levels of nesting. -/
def levels (bound : Nat) : (room : Nat) → Level
  | 0 => ⟨fun _ => failHere .nestingTooDeep, failHere .nestingTooDeep, failHere .nestingTooDeep⟩
  | room + 1 =>
    let below := levels bound room
    ⟨fun inLoop => statementBody below bound inLoop, assignmentBody below bound,
      unaryBody below bound⟩

/-- The statements of a function body, up to the end. -/
def wholeBody (bound : Nat) : Parser (List Stmt) := do
  let body ← statements (levels bound maxNesting) false bound
  expectStop
  pure body

/-- One function definition, up to the end. -/
def wholeDefinition (bound : Nat) : Parser Definition := do
  let begins ← acceptKeyword .function
  if begins then do
    let name ← acceptName
    let definition ← definitionRest (levels bound maxNesting) bound name
    expectStop
    pure definition
  else unexpected

/-- Runs a parser over all tokens of a text. -/
def runOn {α : Type} (parser : Nat → Parser α) (source : String) : Except ParseError α := do
  let all ← tokens source
  let (result, _) ← (parser all.length).run all
  pure result

end Parser

/-- The statements that the text of a function body stands for. -/
def parseBody (source : String) : Except ParseError (List Stmt) :=
  Parser.runOn Parser.wholeBody source

/-- The function that the text of a definition stands for. -/
def parseDefinition (source : String) : Except ParseError Definition :=
  Parser.runOn Parser.wholeDefinition source

end Stencil.Script
