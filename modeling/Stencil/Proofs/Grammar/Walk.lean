import Stencil.Script.Tree.Parse

/-!
# Grammar — reading without bounds

The recursion of the parser is bounded by the room for nesting, and each of its loops by the number of
tokens.  So the parser ends, but whether it needs the bounds to end is not seen in it.  `walk` reads the same
grammar without them: a loop goes on for as long as its test holds, and a production calls others for as long
as the tokens say.  A round of a loop is a call in the round before, so what is left to bound is how deep
calls go: `walk s depth` is the walk as far as they go no deeper than `depth`, and `none` where they would.
A walk that ends is one with a `depth` from which on nothing changes.

A walk counts the levels of nesting and the loops that it is in, and each production that opens one closes it
again.  Where it fails it is still seen how far it got and what the counts are.

A `Symbol` is a place of the grammar where a production is called: the productions with what they are
given, and what is opened around them.  `Symbol.parser` is the production of the parser for it, and
`Symbol.least` is how many tokens it takes at least.

A body is always read inside a function, so that a `return` can stand in each; functions are not counted.
-/

namespace Stencil.Script.Parser

/-- Where a walk is: the tokens that are left, and how many levels of nesting and loops it is in. -/
structure Walker where
  rest : List Token
  nesting : Nat
  loops : Nat

/-- Reads without bounds.  Where a walk is when it fails is part of what it does. -/
abbrev Walk := ExceptT ParseError (StateT Walker Option)

/-- One step over the tokens; one that fails takes none. -/
def take {α : Type} (p : Parser α) : Walk α := ExceptT.mk fun walker =>
  match p.run walker.rest with
  | .ok (a, rest) => some (.ok a, { walker with rest })
  | .error e => some (.error e, walker)

/-- Opens a level of nesting, and closes it whether the walk inside succeeds or not. -/
def nested {α : Type} (inside : Walk α) : Walk α := ExceptT.mk do
  let walker ← get
  if maxNesting ≤ walker.nesting then (take (failHere .nestingTooDeep)).run
  else do
    set { walker with nesting := walker.nesting + 1 }
    let result ← inside.run
    modify fun walker => { walker with nesting := walker.nesting - 1 }
    pure result

/-- Opens a loop, and closes it. -/
def looped {α : Type} (inside : Walk α) : Walk α := ExceptT.mk do
  modify fun walker => { walker with loops := walker.loops + 1 }
  let result ← inside.run
  modify fun walker => { walker with loops := walker.loops - 1 }
  pure result

/-- Leaves all loops, and comes back to them. -/
def enclosed {α : Type} (inside : Walk α) : Walk α := ExceptT.mk do
  let outside ← get
  set { outside with loops := 0 }
  let result ← inside.run
  modify fun walker => { walker with loops := outside.loops }
  pure result

/-- The places of the grammar where a production is called. -/
inductive Symbol : Type → Type 1
  /-- A level of nesting is open. -/
  | nested {α : Type} (inner : Symbol α) : Symbol α
  /-- A loop is open. -/
  | looped {α : Type} (inner : Symbol α) : Symbol α
  /-- In a function of its own, where no loop is open. -/
  | enclosed {α : Type} (inner : Symbol α) : Symbol α
  | statements : Symbol (List Stmt)
  | braced : Symbol (List Stmt)
  | statement : Symbol Stmt
  | bindings (kind : DeclKind) : Symbol (List (String × Option Expr))
  | binding (kind : DeclKind) : Symbol (String × Option Expr)
  | branch : Symbol Stmt
  | forLoop : Symbol Stmt
  | loopInit : Symbol (Option Stmt)
  | unlessSign (sign : Punctuator) : Symbol (Option Expr)
  | whileLoop : Symbol Stmt
  | jump (cause : ParseError.Cause) (stmt : Stmt) : Symbol Stmt
  | returned : Symbol Stmt
  | function : Symbol Stmt
  | definition (name : Option String) : Symbol Definition
  | parameters : Symbol (List String × Option String)
  | parameter : Symbol String
  | assignment : Symbol Expr
  | conditional : Symbol Expr
  | infixed (count : Nat) : Symbol Expr
  | chain (count : Nat) (left : Expr) : Symbol Expr
  | unary : Symbol Expr
  | postfixed : Symbol Expr
  | suffixes (e : Expr) : Symbol Expr
  | primary : Symbol Expr
  | items (close : Punctuator) : Symbol (List Expr)
  | itemsClosed (close : Punctuator) : Symbol (List Expr)
  | field : Symbol (String × Expr)
  | fields : Symbol (List (String × Expr))

/-- **Reading without bounds on loops**, as far as calls go no deeper than `depth`. -/
def walk {α : Type} (s : Symbol α) : (depth : Nat) → Walk α
  | 0 => ExceptT.mk fun _ => none
  | depth + 1 =>
    match s with
    | .nested inner => nested (walk inner depth)
    | .looped inner => looped (walk inner depth)
    | .enclosed inner => enclosed (walk inner depth)
    | .statements => do
      let closed ← take (atSign .closeBrace)
      let done ← take atStop
      if closed || done then pure []
      else do
        let first ← walk (.nested .statement) depth
        let others ← walk .statements depth
        pure (first :: others)
    | .braced => do
      take (expectSign .openBrace)
      let body ← walk .statements depth
      take (expectSign .closeBrace)
      pure body
    | .statement => do
      let kind ← take peekKind
      match kind with
      | .sign .openBrace => do
        let body ← walk .braced depth
        pure (.block body)
      | .sign .semicolon => do
        let _ ← take advance
        pure .empty
      | .keyword .if => walk .branch depth
      | .keyword .for => walk .forLoop depth
      | .keyword .while => walk .whileLoop depth
      | .keyword .break => walk (.jump .illegalBreak .break) depth
      | .keyword .continue => walk (.jump .illegalContinue .continue) depth
      | .keyword .return => walk .returned depth
      | .keyword .function => walk .function depth
      | kind =>
        match declKind kind with
        | some declared => do
          let _ ← take advance
          let all ← walk (.bindings declared) depth
          take endStatement
          pure (.declare declared all)
        | none => do
          let e ← walk (.nested .assignment) depth
          take endStatement
          pure (.expr e)
    | .bindings kind => do
      let first ← walk (.binding kind) depth
      let more ← take (acceptSign .comma)
      if more then do
        let others ← walk (.bindings kind) depth
        pure (first :: others)
      else pure [first]
    | .binding kind => do
      let name ← take expectName
      let valued ← take (acceptSign .assign)
      if valued then do
        let value ← walk (.nested .assignment) depth
        pure (name, some value)
      else if kind = .const then take (failHere .initializerMissing)
      else pure (name, none)
    | .branch => do
      let _ ← take advance
      take (expectSign .openParen)
      let test ← walk (.nested .assignment) depth
      take (expectSign .closeParen)
      let yes ← walk (.nested .statement) depth
      let hasElse ← take (acceptKeyword .else)
      if hasElse then do
        let no ← walk (.nested .statement) depth
        pure (.branch test yes (some no))
      else pure (.branch test yes none)
    | .forLoop => do
      let _ ← take advance
      take (expectSign .openParen)
      let header ← take loopBinding
      match header with
      | some (target, word) => do
        let subject ← walk (.nested .assignment) depth
        take (expectSign .closeParen)
        let body ← walk (.looped (.nested .statement)) depth
        match word with
        | .in => pure (.forIn target subject body)
        | .of => pure (.forOf target subject body)
      | none => do
        let init ← walk .loopInit depth
        take (expectSign .semicolon)
        let test ← walk (.unlessSign .semicolon) depth
        take (expectSign .semicolon)
        let update ← walk (.unlessSign .closeParen) depth
        take (expectSign .closeParen)
        let body ← walk (.looped (.nested .statement)) depth
        pure (.loop init test update body)
    | .loopInit => do
      let kind ← take peekKind
      if kind.isSign .semicolon then pure none
      else
        match declKind kind with
        | some declared => do
          let _ ← take advance
          let all ← walk (.bindings declared) depth
          pure (some (.declare declared all))
        | none => do
          let e ← walk (.nested .assignment) depth
          pure (some (.expr e))
    | .unlessSign sign => do
      let absent ← take (atSign sign)
      if absent then pure none
      else do
        let e ← walk (.nested .assignment) depth
        pure (some e)
    | .whileLoop => do
      let _ ← take advance
      take (expectSign .openParen)
      let test ← walk (.nested .assignment) depth
      take (expectSign .closeParen)
      let body ← walk (.looped (.nested .statement)) depth
      pure (.whileLoop test body)
    | .jump cause stmt => do
      let walker ← get
      if walker.loops = 0 then take (failHere cause)
      else do
        let _ ← take advance
        take endStatement
        pure stmt
    | .returned => do
      let _ ← take advance
      let semicolon ← take (atSign .semicolon)
      let ends ← take atStatementEnd
      let value ←
        if semicolon || ends then pure none
        else do
          let e ← walk (.nested .assignment) depth
          pure (some e)
      take endStatement
      pure (.return value)
    | .function => do
      let _ ← take advance
      let name? ← take acceptName
      match name? with
      | none => take (failHere .functionNameMissing)
      | some name => do
        let definition ← walk (.definition (some name)) depth
        pure (.function definition)
    | .definition name => do
      take (expectSign .openParen)
      let (names, rest) ← walk .parameters depth
      take (expectSign .closeParen)
      let body ← walk (.enclosed .braced) depth
      pure ⟨name, names, rest, body⟩
    | .parameters => do
      let closed ← take (atSign .closeParen)
      if closed then pure ([], none)
      else do
        let takesRest ← take (acceptSign .ellipsis)
        if takesRest then do
          let rest ← walk .parameter depth
          pure ([], some rest)
        else do
          let first ← walk .parameter depth
          let more ← take (acceptSign .comma)
          if more then do
            let (others, rest) ← walk .parameters depth
            pure (first :: others, rest)
          else pure ([first], none)
    | .parameter => take expectName
    | .assignment => do
      let left ← walk .conditional depth
      let kind ← take peekKind
      match assignOp kind with
      | none => pure left
      | some op =>
        if left.isAssignable then do
          let _ ← take advance
          let value ← walk (.nested .assignment) depth
          pure (.assign op left value)
        else take (failHere .invalidAssignment)
    | .conditional => do
      let test ← walk (.infixed 7) depth
      let chooses ← take (acceptSign .question)
      if chooses then do
        let yes ← walk (.nested .assignment) depth
        take (expectSign .colon)
        let no ← walk (.nested .assignment) depth
        pure (.conditional test yes no)
      else pure test
    | .infixed 0 => walk (.nested .unary) depth
    | .infixed (count + 1) => do
      let first ← walk (.infixed count) depth
      walk (.chain count first) depth
    | .chain count left => do
      let kind ← take peekKind
      match infixOfStrength (7 - count) kind with
      | none => pure left
      | some op => do
        let _ ← take advance
        let right ← walk (.infixed count) depth
        walk (.chain count (op.apply left right)) depth
    | .unary => do
      let kind ← take peekKind
      match unaryOp kind with
      | some op => do
        let _ ← take advance
        let operand ← walk (.nested .unary) depth
        pure (.unary op operand)
      | none =>
        let increment := kind.isSign .increment
        if increment || kind.isSign .decrement then do
          let _ ← take advance
          let target ← walk (.nested .unary) depth
          if target.isAssignable then pure (.update increment true target)
          else take (failHere .invalidPrefixOperation)
        else walk .postfixed depth
    | .postfixed => do
      let first ← walk .primary depth
      let e ← walk (.suffixes first) depth
      let token ← take peek
      let increment := token.kind.isSign .increment
      if (increment || token.kind.isSign .decrement) && !token.newlineBefore then
        if e.isAssignable then do
          let _ ← take advance
          pure (.update increment false e)
        else take (failHere .invalidPostfixOperation)
      else pure e
    | .suffixes e => do
      let dot ← take (acceptSign .dot)
      if dot then do
        let kind ← take peekKind
        match memberName kind with
        | none => take unexpected
        | some key => do
          let _ ← take advance
          walk (.suffixes (.member e key)) depth
      else do
        let bracket ← take (acceptSign .openBracket)
        if bracket then do
          let key ← walk (.nested .assignment) depth
          take (expectSign .closeBracket)
          walk (.suffixes (.index e key)) depth
        else do
          let paren ← take (acceptSign .openParen)
          if paren then do
            let arguments ← walk (.itemsClosed .closeParen) depth
            walk (.suffixes (.call e arguments)) depth
          else pure e
    | .primary => do
      let token ← take advance
      match token.kind with
      | .number value => pure (.number value)
      | .string value => pure (.string value)
      | .name word => pure (.name word)
      | .keyword .true => pure (.bool true)
      | .keyword .false => pure (.bool false)
      | .keyword .null => pure .null
      | .keyword .function => do
        let name ← take acceptName
        let definition ← walk (.definition name) depth
        pure (.function definition)
      | .sign .openParen => do
        let inner ← walk (.nested .assignment) depth
        take (expectSign .closeParen)
        pure inner
      | .sign .openBracket => do
        let all ← walk (.itemsClosed .closeBracket) depth
        pure (.array all)
      | .sign .openBrace => do
        let all ← walk .fields depth
        take (expectSign .closeBrace)
        pure (.object all)
      | kind => throw ⟨.unexpected kind, token.position⟩
    | .items close => do
      let closed ← take (atSign close)
      if closed then pure []
      else do
        let first ← walk (.nested .assignment) depth
        let more ← take (acceptSign .comma)
        if more then do
          let others ← walk (.items close) depth
          pure (first :: others)
        else pure [first]
    | .itemsClosed close => do
      let all ← walk (.items close) depth
      take (expectSign close)
      pure all
    | .field => do
      let kind ← take peekKind
      match fieldKey kind with
      | none => take unexpected
      | some (key, shorthand) => do
        let _ ← take advance
        let valued ← take (acceptSign .colon)
        if valued then do
          let value ← walk (.nested .assignment) depth
          pure (key, value)
        else if shorthand then pure (key, .name key)
        else take unexpected
    | .fields => do
      let closed ← take (atSign .closeBrace)
      if closed then pure []
      else do
        let first ← walk .field depth
        let more ← take (acceptSign .comma)
        if more then do
          let others ← walk .fields depth
          pure (first :: others)
        else pure [first]

namespace Symbol

/-- The production of the parser, where so many levels of nesting and loops are open. -/
def parser {α : Type} (s : Symbol α) (bound nesting loops : Nat) : Parser α :=
  let level := levels bound (maxNesting - nesting)
  let inLoop := decide (0 < loops)
  match s with
  | .nested inner =>
    if maxNesting ≤ nesting then failHere .nestingTooDeep else inner.parser bound (nesting + 1) loops
  | .looped inner => inner.parser bound nesting (loops + 1)
  | .enclosed inner => inner.parser bound nesting 0
  | .statements => Parser.statements level inLoop bound
  | .braced => Parser.braced level inLoop bound
  | .statement => statementBody level bound inLoop
  | .bindings kind => Parser.bindings level kind bound
  | .binding kind => Parser.binding level kind
  | .branch => branchBody level inLoop
  | .forLoop => forBody level bound
  | .loopInit => Parser.loopInit level bound
  | .unlessSign sign => Parser.unlessSign level sign
  | .whileLoop => whileBody level
  | .jump cause stmt => Parser.jump inLoop cause stmt
  | .returned => returnBody level
  | .function => functionBody level bound
  | .definition name => definitionRest level bound name
  | .parameters => Parser.parameters bound
  | .parameter => expectName
  | .assignment => assignmentBody level bound
  | .conditional => Parser.conditional level bound
  | .infixed count => Parser.infixed level bound count
  | .chain count left => Parser.chain (Parser.infixed level bound count) (7 - count) bound left
  | .unary => unaryBody level bound
  | .postfixed => Parser.postfixed level bound
  | .suffixes e => Parser.suffixes level bound bound e
  | .primary => Parser.primary level bound
  | .items close => Parser.items level close bound
  | .itemsClosed close => Parser.itemsClosed level bound close
  | .field => Parser.field level
  | .fields => Parser.fields level bound

/-- What is read in a level of nesting of its own is what the level of the parser reads. -/
theorem parser_nested (bound nesting loops : Nat) :
    (nested .statement).parser bound nesting loops =
        (levels bound (maxNesting - nesting)).statement (decide (0 < loops)) ∧
      (nested .assignment).parser bound nesting loops = (levels bound (maxNesting - nesting)).assignment ∧
      (nested .unary).parser bound nesting loops = (levels bound (maxNesting - nesting)).unary := by
  by_cases hdeep : maxNesting ≤ nesting
  · simp only [parser, if_pos hdeep, Nat.sub_eq_zero_of_le hdeep]
    exact ⟨rfl, rfl, rfl⟩
  · obtain ⟨room, hroom⟩ := Nat.exists_eq_succ_of_ne_zero (Nat.sub_ne_zero_of_lt (Nat.lt_of_not_le hdeep))
    have hbelow : maxNesting - (nesting + 1) = room := by omega
    simp only [parser, if_neg hdeep, hroom, hbelow]
    exact ⟨rfl, rfl, rfl⟩

/-- How many tokens it takes at least.  Lists may be empty and chains have no more rounds, an expression may
be left out of a loop header, and at the end of all tokens there is no keyword to take for a jump or a
return. -/
def least {α : Type} : Symbol α → Nat
  | .nested inner => inner.least
  | .looped inner => inner.least
  | .enclosed inner => inner.least
  | .statements => 0
  | .loopInit => 0
  | .unlessSign _ => 0
  | .jump _ _ => 0
  | .returned => 0
  | .parameters => 0
  | .chain _ _ => 0
  | .suffixes _ => 0
  | .items _ => 0
  | .fields => 0
  | _ => 1

end Symbol

/-! ### Runs -/

theorem run_take_of_ok {α : Type} {p : Parser α} {walker : Walker} {a : α} {rest : List Token}
    (h : p.run walker.rest = .ok (a, rest)) :
    (take p).run.run walker = some (.ok a, { walker with rest }) := by
  show (match p.run walker.rest with | .ok (a, rest) => _ | .error e => _) = _
  rw [h]

theorem run_take_of_error {α : Type} {p : Parser α} {walker : Walker} {e : ParseError}
    (h : p.run walker.rest = .error e) : (take p).run.run walker = some (.error e, walker) := by
  show (match p.run walker.rest with | .ok (a, rest) => _ | .error e => _) = _
  rw [h]

theorem run_walk_bind_of_ok {α β : Type} {x : Walk α} (f : α → Walk β) {walker next : Walker} {a : α}
    (h : x.run.run walker = some (.ok a, next)) : (x >>= f).run.run walker = (f a).run.run next := by
  rw [ExceptT.run_bind, StateT.run_bind, h]
  rfl

theorem run_walk_bind_of_error {α β : Type} {x : Walk α} (f : α → Walk β) {walker next : Walker}
    {e : ParseError} (h : x.run.run walker = some (.error e, next)) :
    (x >>= f).run.run walker = some (.error e, next) := by
  rw [ExceptT.run_bind, StateT.run_bind, h]
  rfl

theorem run_nested {α : Type} (x : Walk α) (walker : Walker) :
    (nested x).run.run walker =
      if maxNesting ≤ walker.nesting then (take (failHere .nestingTooDeep)).run.run walker
      else (x.run.run { walker with nesting := walker.nesting + 1 }).map fun (result, next) =>
        (result, { next with nesting := next.nesting - 1 }) := by
  show (if maxNesting ≤ walker.nesting then _ else _ : StateT Walker Option _).run walker = _
  split
  · rfl
  · show (x.run.run _).bind _ = _
    cases x.run.run _ <;> rfl

theorem run_looped {α : Type} (x : Walk α) (walker : Walker) :
    (looped x).run.run walker =
      (x.run.run { walker with loops := walker.loops + 1 }).map fun (result, next) =>
        (result, { next with loops := next.loops - 1 }) := by
  show (x.run.run _).bind _ = _
  cases x.run.run _ <;> rfl

theorem run_enclosed {α : Type} (x : Walk α) (walker : Walker) :
    (enclosed x).run.run walker =
      (x.run.run { walker with loops := 0 }).map fun (result, next) =>
        (result, { next with loops := walker.loops }) := by
  show (x.run.run _).bind _ = _
  cases x.run.run _ <;> rfl

end Stencil.Script.Parser
