import Stencil.Proofs.Grammar.Steps

/-!
# Grammar — one form at a time

More rules for what a parser gives (`Gives`): one for each form that an expression or a statement can
have, and for the lists in them.  They are stated of any level, so that what stands inside a form is
given by a hypothesis, and a tree is parsed form by form.
-/

namespace Stencil.Script.Parser

/-- The expression that a token is by itself. -/
def atom? : TokenKind → Option Expr
  | .number value => some (.number value)
  | .string value => some (.string value)
  | .name word => some (.name word)
  | .keyword .true => some (.bool true)
  | .keyword .false => some (.bool false)
  | .keyword .null => some .null
  | _ => none

/-- Whether a statement that begins with a token is an expression. -/
def BeginsExpr : TokenKind → Prop
  | .sign sign => sign ≠ .openBrace ∧ sign ≠ .semicolon
  | .keyword word => word ∈ [Keyword.true, .false, .null, .typeof, .else, .in]
  | _ => True

/-- The loop over items or keys that a word makes. -/
def LoopWord.stmt : LoopWord → LoopBinding → Expr → Stmt → Stmt
  | .in => .forIn
  | .of => .forOf

namespace Gives

variable {deep : Prop} {α β : Type} {ts mid mid' rest : List Token} {t u : Token}
variable {level : Level} {n bound rounds : Nat} {e e' left right : Expr}

/-! ### Operands -/

theorem primaryAtom (ht : atom? t.kind = some e) :
    Gives deep (Parser.primary level n) (t :: ts) e ts := by
  have hstop : t.kind.isStop = false := TokenKind.isStop_of_some ht rfl
  rw [Parser.primary]
  refine advance hstop ?_
  cases hk : t.kind with
  | keyword word => cases word <;> rw [hk] at ht <;> cases ht <;> exact pure
  | number value | string value | name word => rw [hk] at ht; cases ht; exact pure
  | sign sign => rw [hk] at ht; cases ht
  | stop => rw [hk] at ht; cases ht

theorem primaryParen (ht : t.kind = .sign .openParen)
    (h : Gives deep level.assignment ts e (u :: rest)) (hu : u.kind = .sign .closeParen) :
    Gives deep (Parser.primary level n) (t :: ts) e rest := by
  rw [Parser.primary]
  refine advance (by rw [ht]; rfl) ?_
  simp only [ht]
  exact bind h (expect hu pure)

theorem primaryArray {items : List Expr} (ht : t.kind = .sign .openBracket)
    (h : Gives deep (Parser.items level .closeBracket n) ts items (u :: rest))
    (hu : u.kind = .sign .closeBracket) :
    Gives deep (Parser.primary level n) (t :: ts) (.array items) rest := by
  rw [Parser.primary]
  refine advance (by rw [ht]; rfl) ?_
  simp only [ht, itemsClosed]
  exact bind (bind h (expect hu pure)) pure

theorem primaryObject {fields : List (String × Expr)} (ht : t.kind = .sign .openBrace)
    (h : Gives deep (Parser.fields level n) ts fields (u :: rest))
    (hu : u.kind = .sign .closeBrace) :
    Gives deep (Parser.primary level n) (t :: ts) (.object fields) rest := by
  rw [Parser.primary]
  refine advance (by rw [ht]; rfl) ?_
  simp only [ht]
  exact bind h (expect hu pure)

/-- A function with a name. -/
theorem primaryNamed {word : String} {d : Definition} (ht : t.kind = .keyword .function)
    (hu : u.kind = .name word)
    (h : Gives deep (Parser.definitionRest level n (some word)) ts d rest) :
    Gives deep (Parser.primary level n) (t :: u :: ts) (.function d) rest := by
  rw [Parser.primary]
  refine advance (by rw [ht]; rfl) ?_
  simp only [ht]
  exact name hu (bind h pure)

/-! ### Lists -/

section
variable {close : Punctuator} {items : List Expr}

theorem itemsNil (h : (headKind ts).isSign close = true) :
    Gives deep (Parser.items level close bound) ts [] ts := by
  cases bound with
  | zero => exact pure
  | succ bound =>
      rw [Parser.items]
      refine atSign ?_
      rw [h]
      exact pure

theorem itemsLast (hc : (headKind ts).isSign close = false)
    (h : Gives deep level.assignment ts e rest) (hr : (headKind rest).isSign .comma = false) :
    Gives deep (Parser.items level close (bound + 1)) ts [e] rest := by
  rw [Parser.items]
  refine atSign ?_
  rw [hc]
  exact bind h (pass hr pure)

theorem itemsCons (hc : (headKind ts).isSign close = false)
    (h : Gives deep level.assignment ts e (t :: mid)) (ht : t.kind = .sign .comma)
    (hrest : Gives deep (Parser.items level close bound) mid items rest) :
    Gives deep (Parser.items level close (bound + 1)) ts (e :: items) rest := by
  rw [Parser.items]
  refine atSign ?_
  rw [hc]
  exact bind h (accept ht (bind hrest pure))

end

section
variable {key : String} {shorthand : Bool} {fields : List (String × Expr)}

/-- A field with a value. -/
theorem field (ht : fieldKey t.kind = some (key, shorthand)) (hu : u.kind = .sign .colon)
    (h : Gives deep level.assignment ts e rest) :
    Gives deep (Parser.field level) (t :: u :: ts) (key, e) rest := by
  have hstop : t.kind.isStop = false := TokenKind.isStop_of_some ht rfl
  rw [Parser.field]
  refine peekKind ?_
  simp only [headKind, ht]
  exact advance hstop (accept hu (bind h pure))

theorem fieldsNil (h : (headKind ts).isSign .closeBrace = true) :
    Gives deep (Parser.fields level bound) ts [] ts := by
  cases bound with
  | zero => exact pure
  | succ bound =>
      rw [Parser.fields]
      refine atSign ?_
      rw [h]
      exact pure

variable {p : String × Expr}

theorem fieldsLast (hc : (headKind ts).isSign .closeBrace = false)
    (h : Gives deep (Parser.field level) ts p rest) (hr : (headKind rest).isSign .comma = false) :
    Gives deep (Parser.fields level (bound + 1)) ts [p] rest := by
  rw [Parser.fields]
  refine atSign ?_
  rw [hc]
  exact bind h (pass hr pure)

theorem fieldsCons (hc : (headKind ts).isSign .closeBrace = false)
    (h : Gives deep (Parser.field level) ts p (t :: mid)) (ht : t.kind = .sign .comma)
    (hrest : Gives deep (Parser.fields level bound) mid fields rest) :
    Gives deep (Parser.fields level (bound + 1)) ts (p :: fields) rest := by
  rw [Parser.fields]
  refine atSign ?_
  rw [hc]
  exact bind h (accept ht (bind hrest pure))

end

section
variable {word : String} {names : List String} {last : Option String}

theorem parametersNil (h : (headKind ts).isSign .closeParen = true) :
    Gives deep (Parser.parameters bound) ts ([], none) ts := by
  cases bound with
  | zero => exact pure
  | succ bound =>
      rw [Parser.parameters]
      refine atSign ?_
      rw [h]
      exact pure

theorem parametersCons (ht : t.kind = .name word) (hu : u.kind = .sign .comma)
    (h : Gives deep (Parser.parameters bound) ts (names, last) rest) :
    Gives deep (Parser.parameters (bound + 1)) (t :: u :: ts) (word :: names, last) rest := by
  have hsign : ∀ sign, (headKind (t :: u :: ts)).isSign sign = false := by
    intro sign
    rw [headKind, ht]
    rfl
  rw [Parser.parameters]
  refine atSign ?_
  rw [hsign]
  exact pass (hsign _) (expectName ht (accept hu (bind h pure)))

end

/-! ### Suffixes -/

theorem suffixesKey {key : String} (ht : t.kind = .sign .dot) (hu : memberName u.kind = some key)
    (h : Gives deep (Parser.suffixes level n rounds (.member e key)) ts e' rest) :
    Gives deep (Parser.suffixes level n (rounds + 1) e) (t :: u :: ts) e' rest := by
  have hstop : u.kind.isStop = false := TokenKind.isStop_of_some hu rfl
  rw [Parser.suffixes]
  refine accept ht (peekKind ?_)
  simp only [headKind, hu]
  exact advance hstop h

theorem suffixesIndex {key : Expr} (ht : t.kind = .sign .openBracket)
    (hk : Gives deep level.assignment ts key (u :: mid)) (hu : u.kind = .sign .closeBracket)
    (h : Gives deep (Parser.suffixes level n rounds (.index e key)) mid e' rest) :
    Gives deep (Parser.suffixes level n (rounds + 1) e) (t :: ts) e' rest := by
  rw [Parser.suffixes]
  exact pass (by rw [headKind, ht]; rfl) (accept ht (bind hk (expect hu h)))

/-- A call with any arguments. -/
theorem suffixesArguments {arguments : List Expr} (ht : t.kind = .sign .openParen)
    (ha : Gives deep (Parser.items level .closeParen n) ts arguments (u :: mid))
    (hu : u.kind = .sign .closeParen)
    (h : Gives deep (Parser.suffixes level n rounds (.call e arguments)) mid e' rest) :
    Gives deep (Parser.suffixes level n (rounds + 1) e) (t :: ts) e' rest := by
  rw [Parser.suffixes]
  refine pass (by rw [headKind, ht]; rfl) (pass (by rw [headKind, ht]; rfl) (accept ht ?_))
  exact bind (bind ha (expect hu pure)) h

/-- A sign after an operand, on the same line, that counts up or down. -/
theorem postfixUpdate {increment : Bool} (hp : Gives deep (Parser.primary level n) ts e mid)
    (hs : Gives deep (Parser.suffixes level n n e) mid e' (t :: rest))
    (ht : t.kind = .sign (if increment then .increment else .decrement))
    (hline : t.newlineBefore = false) (ha : e'.isAssignable = true) :
    Gives deep (Parser.postfixed level n) ts (.update increment false e') rest := by
  rw [Parser.postfixed]
  refine bind hp (bind hs (bind (.of_run (run_peek t rest)) ?_))
  cases increment <;> simp only [ht, hline, ha] <;> exact advance (by rw [ht]; rfl) pure

/-! ### Operators -/

theorem unaryOperator {op : UnaryOp} (ht : unaryOp t.kind = some op)
    (h : Gives deep level.unary ts e rest) :
    Gives deep (Parser.unaryBody level n) (t :: ts) (.unary op e) rest := by
  have hstop : t.kind.isStop = false := TokenKind.isStop_of_some ht rfl
  rw [Parser.unaryBody]
  refine peekKind ?_
  simp only [headKind, ht]
  exact advance hstop (bind h pure)

theorem prefixUpdate {increment : Bool}
    (ht : t.kind = .sign (if increment then .increment else .decrement))
    (h : Gives deep level.unary ts e rest) (ha : e.isAssignable = true) :
    Gives deep (Parser.unaryBody level n) (t :: ts) (.update increment true e) rest := by
  rw [Parser.unaryBody]
  refine peekKind ?_
  cases increment <;> simp only [headKind, ht] <;>
    refine advance (by rw [ht]; rfl) (bind h ?_) <;> simp only [ha] <;> exact pure

/-- Operands joined by operators of one strength. -/
theorem infixedChain {count : Nat} (h : Gives deep (Parser.infixed level n count) ts left mid)
    (hc : Gives deep (Parser.chain (Parser.infixed level n count) (7 - count) n left) mid e rest) :
    Gives deep (Parser.infixed level n (count + 1)) ts e rest :=
  bind h hc

theorem choice {test yes no : Expr} (h : Gives deep (Parser.infixed level n 7) ts test (t :: mid))
    (ht : t.kind = .sign .question) (hyes : Gives deep level.assignment mid yes (u :: mid'))
    (hu : u.kind = .sign .colon) (hno : Gives deep level.assignment mid' no rest) :
    Gives deep (Parser.conditional level n) ts (.conditional test yes no) rest :=
  bind h (accept ht (bind hyes (expect hu (bind hno pure))))

/-! ### Operands among operators -/

/-- An operand at the front of an infix expression. -/
theorem operands (h : Gives deep level.unary ts e rest) {count : Nat}
    (hr : ∀ k, k < count → infixOfStrength (7 - k) (headKind rest) = none) :
    Gives deep (Parser.infixed level n count) ts e rest := by
  have h : Gives deep (Parser.infixed level n 0) ts e rest := h
  exact h.infixed hr (Nat.zero_le _)

section
variable {room : Nat} (hroom : room = 0 → deep)
include hroom

/-- A literal or a name as an operand. -/
theorem atomOperand (ht : atom? t.kind = some e) (hr : EndsOperand (headKind ts)) :
    Gives deep (levels n room).unary (t :: ts) e ts := by
  refine unary hroom fun r _ => unaryBody ?_ ?_ ?_ (postfixed (primaryAtom ht) (suffixesDone hr) hr) <;>
    rw [headKind] <;> cases hk : t.kind with
    | sign sign => rw [hk] at ht; cases ht
    | keyword word => cases word <;> first | rfl | (rw [hk] at ht; cases ht)
    | _ => rfl

/-- An expression in parentheses as an operand. -/
theorem parenOperand (ht : t.kind = .sign .openParen)
    (h : ∀ r, room = r + 1 → Gives deep (levels n r).assignment ts e (u :: rest))
    (hu : u.kind = .sign .closeParen) (hr : EndsOperand (headKind rest)) :
    Gives deep (levels n room).unary (t :: ts) e rest := by
  refine unary hroom fun r hr' => unaryBody ?_ ?_ ?_
    (postfixed (primaryParen ht (h r hr') hu) (suffixesDone hr) hr) <;> rw [headKind, ht] <;> rfl

end

/-! ### Statements -/

section
variable {inLoop : Bool} {s s' : Stmt} {body : List Stmt}

theorem statementsNil (h : ((headKind ts).isSign .closeBrace || (headKind ts).isStop) = true) :
    Gives deep (Parser.statements level inLoop bound) ts [] ts := by
  cases bound with
  | zero => exact pure
  | succ bound =>
      rw [statements_succ]
      refine peekKind ?_
      simp only [h]
      exact pure

theorem braced (ht : t.kind = .sign .openBrace)
    (h : Gives deep (Parser.statements level inLoop bound) ts body (u :: rest))
    (hu : u.kind = .sign .closeBrace) :
    Gives deep (Parser.braced level inLoop bound) (t :: ts) body rest :=
  expect ht (bind h (expect hu pure))

theorem block (ht : t.kind = .sign .openBrace)
    (h : Gives deep (Parser.statements level inLoop n) ts body (u :: rest))
    (hu : u.kind = .sign .closeBrace) :
    Gives deep (Parser.statementBody level n inLoop) (t :: ts) (.block body) rest := by
  rw [Parser.statementBody]
  refine peekKind ?_
  simp only [headKind, ht]
  exact bind (braced ht h hu) pure

theorem emptyStatement (ht : t.kind = .sign .semicolon) :
    Gives deep (Parser.statementBody level n inLoop) (t :: ts) .empty ts := by
  rw [Parser.statementBody]
  refine peekKind ?_
  simp only [headKind, ht]
  exact advance (by rw [ht]; rfl) pure

/-- An expression as a statement. -/
theorem expression (hb : BeginsExpr (headKind ts)) (h : Gives deep level.assignment ts e mid)
    (hend : Gives deep Parser.endStatement mid () rest) :
    Gives deep (Parser.statementBody level n inLoop) ts (.expr e) rest := by
  have general : Gives deep (level.assignment >>= fun e => Parser.endStatement >>= fun _ =>
      Pure.pure (Stmt.expr e)) ts (.expr e) rest := bind h (bind hend pure)
  rw [Parser.statementBody]
  refine peekKind ?_
  cases hk : headKind ts with
  | keyword word =>
      rw [hk] at hb
      simp only [BeginsExpr, List.mem_cons, List.not_mem_nil, or_false] at hb
      rcases hb with rfl | rfl | rfl | rfl | rfl | rfl <;> exact general
  | sign sign =>
      rw [hk] at hb
      cases sign <;> first | exact general | exact absurd rfl hb.1 | exact absurd rfl hb.2
  | _ => exact general

/-- The keyword, the parentheses and what stands between them at the front of a statement. -/
theorem header {f : Expr → Parser β} {b : β} {u' : Token} (ht : t.kind.isStop = false)
    (hu : u.kind = .sign .openParen) (h : Gives deep level.assignment ts e (u' :: mid))
    (hu' : u'.kind = .sign .closeParen) (hf : Gives deep (f e) mid b rest) :
    Gives deep (Parser.advance >>= fun _ => Parser.expectSign .openParen >>= fun _ =>
      level.assignment >>= fun e => Parser.expectSign .closeParen >>= fun _ => f e)
      (t :: u :: ts) b rest :=
  advance ht (expect hu (bind h (expect hu' hf)))

section
variable {u' : Token} (ht : t.kind = .keyword .if) (hu : u.kind = .sign .openParen)
  (h : Gives deep level.assignment ts e (u' :: mid)) (hu' : u'.kind = .sign .closeParen)
include ht hu h hu'

theorem branchElse {v : Token} (hyes : Gives deep (level.statement inLoop) mid s (v :: mid'))
    (hv : v.kind = .keyword .else) (hno : Gives deep (level.statement inLoop) mid' s' rest) :
    Gives deep (Parser.statementBody level n inLoop) (t :: u :: ts) (.branch e s (some s')) rest := by
  rw [Parser.statementBody]
  refine peekKind ?_
  simp only [headKind, ht]
  exact header (by rw [ht]; rfl) hu h hu' (bind hyes (keyword hv (bind hno pure)))

theorem branch (hyes : Gives deep (level.statement inLoop) mid s rest)
    (hr : (headKind rest).isKeyword .else = false) :
    Gives deep (Parser.statementBody level n inLoop) (t :: u :: ts) (.branch e s none) rest := by
  rw [Parser.statementBody]
  refine peekKind ?_
  simp only [headKind, ht]
  refine header (by rw [ht]; rfl) hu h hu' (bind hyes ?_)
  have none : Gives deep (Parser.acceptKeyword .else) rest false rest := by
    rw [acceptKeyword_eq]
    refine .of_run ?_
    cases rest with
    | nil => rfl
    | cons v rest => exact run_accept_false hr rest
  exact bind none pure

end

theorem whileLoop {u' : Token} (ht : t.kind = .keyword .while) (hu : u.kind = .sign .openParen)
    (h : Gives deep level.assignment ts e (u' :: mid)) (hu' : u'.kind = .sign .closeParen)
    (hbody : Gives deep (level.statement true) mid s rest) :
    Gives deep (Parser.statementBody level n inLoop) (t :: u :: ts) (.whileLoop e s) rest := by
  rw [Parser.statementBody]
  refine peekKind ?_
  simp only [headKind, ht]
  exact header (by rw [ht]; rfl) hu h hu' (bind hbody pure)

/-- A loop over items or keys. -/
theorem forEach {u' v : Token} {ts' : List Token} {declared : Option DeclKind} {word : String}
    (loop : LoopWord) (ht : t.kind = .keyword .for) (hu : u.kind = .sign .openParen)
    (hv : declKind v.kind = declared)
    (hloop : Ending.loopName? (if declared.isSome then ts' else v :: ts') = some (word, loop, ts))
    (h : Gives deep level.assignment ts e (u' :: mid)) (hu' : u'.kind = .sign .closeParen)
    (hbody : Gives deep (level.statement true) mid s rest) :
    Gives deep (Parser.statementBody level n inLoop) (t :: u :: v :: ts')
      (loop.stmt ⟨declared, word⟩ e s) rest := by
  subst hv
  have binding : Gives deep loopBinding (v :: ts') (some (⟨declKind v.kind, word⟩, loop)) ts := by
    refine .of_run ?_
    rw [Ending.run_loopBinding, hloop]
  rw [Parser.statementBody]
  refine peekKind ?_
  simp only [headKind, ht, forBody]
  refine advance (by rw [ht]; rfl) (expect hu (bind binding (bind h (expect hu' (bind hbody ?_)))))
  cases loop <;> exact pure

/-! ### Loops with three parts -/

theorem noInit (h : (headKind ts).isSign .semicolon = true) :
    Gives deep (Parser.loopInit level n) ts none ts := by
  rw [Parser.loopInit]
  refine peekKind ?_
  simp only [h, if_true]
  exact pure

theorem declareInit {kind : DeclKind} {all : List (String × Option Expr)}
    (ht : declKind t.kind = some kind) (h : Gives deep (Parser.bindings level kind n) ts all rest) :
    Gives deep (Parser.loopInit level n) (t :: ts) (some (.declare kind all)) rest := by
  have hsign : t.kind.isSign .semicolon = false := by
    cases hk : t.kind with
    | sign sign => rw [hk] at ht; cases ht
    | _ => rfl
  have hstop : t.kind.isStop = false := TokenKind.isStop_of_some ht rfl
  rw [Parser.loopInit]
  refine peekKind ?_
  simp only [headKind, hsign, ht]
  exact advance hstop (bind h pure)

theorem exprInit (hs : (headKind ts).isSign .semicolon = false) (hd : declKind (headKind ts) = none)
    (h : Gives deep level.assignment ts e rest) :
    Gives deep (Parser.loopInit level n) ts (some (.expr e)) rest := by
  rw [Parser.loopInit]
  refine peekKind ?_
  simp only [hs, hd]
  exact bind h pure

theorem absent {sign : Punctuator} (h : (headKind ts).isSign sign = true) :
    Gives deep (Parser.unlessSign level sign) ts none ts := by
  rw [Parser.unlessSign]
  refine atSign ?_
  rw [h]
  exact pure

theorem present {sign : Punctuator} (hs : (headKind ts).isSign sign = false)
    (h : Gives deep level.assignment ts e rest) :
    Gives deep (Parser.unlessSign level sign) ts (some e) rest := by
  rw [Parser.unlessSign]
  refine atSign ?_
  rw [hs]
  exact bind h pure

theorem loop {init : Option Stmt} {test update : Option Expr} {v : Token} {ts' : List Token}
    {s₁ s₂ u' : Token} {mid₁ mid₂ : List Token} (ht : t.kind = .keyword .for)
    (hu : u.kind = .sign .openParen)
    (hno : Ending.loopName? (if (declKind v.kind).isSome then ts' else v :: ts') = none)
    (hinit : Gives deep (Parser.loopInit level n) (v :: ts') init (s₁ :: mid₁))
    (hs₁ : s₁.kind = .sign .semicolon)
    (htest : Gives deep (Parser.unlessSign level .semicolon) mid₁ test (s₂ :: mid₂))
    (hs₂ : s₂.kind = .sign .semicolon)
    (hupdate : Gives deep (Parser.unlessSign level .closeParen) mid₂ update (u' :: mid))
    (hu' : u'.kind = .sign .closeParen) (hbody : Gives deep (level.statement true) mid s rest) :
    Gives deep (Parser.statementBody level n inLoop) (t :: u :: v :: ts')
      (.loop init test update s) rest := by
  have binding : Gives deep loopBinding (v :: ts') none (v :: ts') := by
    refine .of_run ?_
    rw [Ending.run_loopBinding, hno]
  rw [Parser.statementBody]
  refine peekKind ?_
  simp only [headKind, ht, forBody]
  exact advance (by rw [ht]; rfl) (expect hu (bind binding (bind hinit (expect hs₁ (bind htest
    (expect hs₂ (bind hupdate (expect hu' (bind hbody pure)))))))))

/-! ### Jumps and functions -/

/-- A jump with its semicolon. -/
theorem breakStatement (ht : t.kind = .keyword .break) (hu : u.kind = .sign .semicolon) :
    Gives deep (Parser.statementBody level n true) (t :: u :: ts) .break ts := by
  rw [Parser.statementBody]
  refine peekKind ?_
  simp only [headKind, ht, jump, if_true]
  exact advance (by rw [ht]; rfl) (bind (semicolon hu) pure)

theorem continueStatement (ht : t.kind = .keyword .continue) (hu : u.kind = .sign .semicolon) :
    Gives deep (Parser.statementBody level n true) (t :: u :: ts) .continue ts := by
  rw [Parser.statementBody]
  refine peekKind ?_
  simp only [headKind, ht, jump, if_true]
  exact advance (by rw [ht]; rfl) (bind (semicolon hu) pure)

theorem returnNothing (ht : t.kind = .keyword .return) (hu : u.kind = .sign .semicolon) :
    Gives deep (Parser.statementBody level n inLoop) (t :: u :: ts) (.return none) ts := by
  rw [Parser.statementBody]
  refine peekKind ?_
  simp only [headKind, ht, returnBody]
  refine advance (by rw [ht]; rfl) (atSign ?_)
  rw [atStatementEnd_bind, show (headKind (u :: ts)).isSign .semicolon = true by rw [headKind, hu]; rfl]
  exact bind (.of_run (run_peek u ts)) (bind pure (bind (semicolon hu) pure))

theorem returnValue (ht : t.kind = .keyword .return)
    (hs : u.kind.isSign .semicolon = false)
    (hends : (u.kind.isSign .closeBrace || u.kind.isStop || u.newlineBefore) = false)
    (h : Gives deep level.assignment (u :: ts) e mid)
    (hend : Gives deep Parser.endStatement mid () rest) :
    Gives deep (Parser.statementBody level n inLoop) (t :: u :: ts) (.return (some e)) rest := by
  rw [Parser.statementBody]
  refine peekKind ?_
  simp only [headKind, ht, returnBody]
  refine advance (by rw [ht]; rfl) (atSign ?_)
  rw [atStatementEnd_bind, show (headKind (u :: ts)).isSign .semicolon = false from hs]
  refine bind (.of_run (run_peek u ts)) ?_
  rw [hends]
  exact bind h (bind pure (bind hend pure))

theorem functionStatement {word : String} {d : Definition} (ht : t.kind = .keyword .function)
    (hu : u.kind = .name word)
    (h : Gives deep (Parser.definitionRest level n (some word)) ts d rest) :
    Gives deep (Parser.statementBody level n inLoop) (t :: u :: ts) (.function d) rest := by
  rw [Parser.statementBody]
  refine peekKind ?_
  simp only [headKind, ht, functionBody]
  exact advance (by rw [ht]; rfl) (name hu (bind h pure))

end

end Gives

end Stencil.Script.Parser
