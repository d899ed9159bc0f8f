import Stencil.Proofs.Grammar.Productions

/-!
# Grammar — one production at a time

`Gives deep p ts a rest`: on the tokens `ts` the parser `p` gives `a` and leaves `rest`, or, if
`deep` allows for that, it runs out of room for nesting.  The rules below follow a parser along
tokens whose kinds are known: first those for looking at a token, then one for each way that a
production can go.
-/

namespace Stencil.Script.Parser

/-- **What a parser gives.** -/
def Gives (deep : Prop) {α : Type} (p : Parser α) (ts : List Token) (a : α) (rest : List Token) :
    Prop :=
  (deep ∧ ∃ pos, p.run ts = .error ⟨.nestingTooDeep, pos⟩) ∨ p.run ts = .ok (a, rest)

/-- A parser that takes all of the first list takes as much of the second. -/
theorem Ending.Reaches.gives {C : Ending} {α : Type} {q : Parser α} {us : List Token} {a : α}
    {t : Token} (h : C.Reaches q us a [t]) : Gives C.deep q us a (C.head :: C.tail) := by
  refine h.imp_right fun ⟨rest, e, hb⟩ => ?_
  cases hb with
  | stop _ => exact e
  | cons _ _ _ _ hb => cases hb

/-! ### Ends of expressions -/

/-- Whether a kind ends an operand: it begins no suffix. -/
def EndsOperand (kind : TokenKind) : Prop :=
  ∀ sign ∈ [Punctuator.dot, .openBracket, .openParen, .increment, .decrement],
    kind.isSign sign = false

instance (kind : TokenKind) : Decidable (EndsOperand kind) :=
  inferInstanceAs (Decidable (∀ sign ∈ [Punctuator.dot, .openBracket, .openParen, .increment,
    .decrement], kind.isSign sign = false))

/-- Whether a kind ends an expression: no suffix, no operator, no choice, no assignment. -/
structure EndsExpr (kind : TokenKind) : Prop where
  operand : EndsOperand kind
  infix_ : ∀ strength, infixOfStrength strength kind = none
  choice : kind.isSign .question = false
  assign : assignOp kind = none

theorem endsExpr_sign {sign : Punctuator}
    (h : sign ∈ [Punctuator.closeParen, .closeBrace, .closeBracket, .comma, .semicolon, .colon]) :
    EndsExpr (.sign sign) := by
  simp only [List.mem_cons, List.not_mem_nil, or_false] at h
  rcases h with rfl | rfl | rfl | rfl | rfl | rfl <;>
    exact ⟨by decide, fun _ => rfl, rfl, rfl⟩

namespace Gives

variable {deep : Prop} {α β : Type} {p : Parser α} {f : α → Parser β} {ts mid rest : List Token}
variable {t : Token} {a : α} {b : β}

theorem of_run (h : p.run ts = .ok (a, rest)) : Gives deep p ts a rest :=
  .inr h

theorem run (h : Gives False p ts a rest) : p.run ts = .ok (a, rest) :=
  h.resolve_left fun hd => hd.1

theorem pure : Gives deep (Pure.pure a) ts a ts :=
  .inr rfl

theorem bind (hp : Gives deep p ts a mid) (hf : Gives deep (f a) mid b rest) :
    Gives deep (p >>= f) ts b rest := by
  rcases hp with ⟨hd, pos, e⟩ | e
  · exact .inl ⟨hd, pos, run_bind_of_error f e⟩
  · rw [Gives, run_bind_of_ok f e]
    exact hf

/-! ### Looking at a token -/

theorem peekKind {f : TokenKind → Parser β} (h : Gives deep (f (headKind ts)) ts b rest) :
    Gives deep (Parser.peekKind >>= f) ts b rest :=
  bind (.of_run (by cases ts <;> rfl)) h

theorem advance {f : Token → Parser β} (ht : t.kind.isStop = false)
    (h : Gives deep (f t) ts b rest) : Gives deep (Parser.advance >>= f) (t :: ts) b rest :=
  bind (.of_run (run_advance ht ts)) h

theorem atSign {f : Bool → Parser β} {sign : Punctuator}
    (h : Gives deep (f ((headKind ts).isSign sign)) ts b rest) :
    Gives deep (Parser.atSign sign >>= f) ts b rest :=
  bind (.of_run (by cases ts <;> rfl)) h

theorem accept {f : Bool → Parser β} {sign : Punctuator} (ht : t.kind = .sign sign)
    (h : Gives deep (f true) ts b rest) :
    Gives deep (Parser.acceptSign sign >>= f) (t :: ts) b rest :=
  bind (.of_run (run_acceptSign_true (by rw [ht]; exact beq_self_eq_true sign) ts)) h

theorem pass {f : Bool → Parser β} {sign : Punctuator} (ht : (headKind ts).isSign sign = false)
    (h : Gives deep (f false) ts b rest) : Gives deep (Parser.acceptSign sign >>= f) ts b rest := by
  refine bind (.of_run ?_) h
  cases ts with
  | nil => rfl
  | cons t ts => exact run_acceptSign_false ht ts

theorem expect {f : Unit → Parser β} {sign : Punctuator} (ht : t.kind = .sign sign)
    (h : Gives deep (f ()) ts b rest) :
    Gives deep (Parser.expectSign sign >>= f) (t :: ts) b rest :=
  bind (.of_run (run_expectSign_true (by rw [ht]; exact beq_self_eq_true sign) ts)) h

theorem keyword {f : Bool → Parser β} {word : Keyword} (ht : t.kind = .keyword word)
    (h : Gives deep (f true) ts b rest) :
    Gives deep (Parser.acceptKeyword word >>= f) (t :: ts) b rest := by
  rw [acceptKeyword_eq]
  refine bind (.of_run (run_accept_true rfl ?_ ts)) h
  rw [ht]
  exact beq_self_eq_true word

theorem name {f : Option String → Parser β} {word : String} (ht : t.kind = .name word)
    (h : Gives deep (f (some word)) ts b rest) :
    Gives deep (Parser.acceptName >>= f) (t :: ts) b rest :=
  bind (.of_run (run_acceptName_some ht ts)) h

theorem noName {f : Option String → Parser β} (ht : ∀ word, t.kind ≠ .name word)
    (h : Gives deep (f none) (t :: ts) b rest) :
    Gives deep (Parser.acceptName >>= f) (t :: ts) b rest :=
  bind (.of_run (run_acceptName_none ht ts)) h

theorem expectName {f : String → Parser β} {word : String} (ht : t.kind = .name word)
    (h : Gives deep (f word) ts b rest) :
    Gives deep (Parser.expectName >>= f) (t :: ts) b rest := by
  refine bind (.of_run ?_) h
  rw [Parser.expectName, run_bind_of_ok _ (run_acceptName_some ht ts)]
  rfl

theorem semicolon (ht : t.kind = .sign .semicolon) :
    Gives deep Parser.endStatement (t :: ts) () ts := by
  rw [Parser.endStatement]
  exact accept ht pure

theorem tooDeep {a : α} (hd : deep) : Gives deep (Parser.failHere .nestingTooDeep) ts a rest := by
  refine .inl ⟨hd, ?_⟩
  cases ts with
  | nil => exact ⟨_, rfl⟩
  | cons t ts => exact ⟨_, rfl⟩

/-! ### Levels -/

section
variable {room n : Nat} {e : Expr} {s : Stmt}

theorem unary (hroom : room = 0 → deep)
    (h : ∀ r, room = r + 1 → Gives deep (Parser.unaryBody (levels n r) n) ts e rest) :
    Gives deep (levels n room).unary ts e rest := by
  cases room with
  | zero => exact tooDeep (hroom rfl)
  | succ r => exact h r rfl

theorem assignment (hroom : room = 0 → deep)
    (h : ∀ r, room = r + 1 → Gives deep (Parser.assignmentBody (levels n r) n) ts e rest) :
    Gives deep (levels n room).assignment ts e rest := by
  cases room with
  | zero => exact tooDeep (hroom rfl)
  | succ r => exact h r rfl

theorem statement {inLoop : Bool} (hroom : room = 0 → deep)
    (h : ∀ r, room = r + 1 → Gives deep (Parser.statementBody (levels n r) n inLoop) ts s rest) :
    Gives deep ((levels n room).statement inLoop) ts s rest := by
  cases room with
  | zero => exact tooDeep (hroom rfl)
  | succ r => exact h r rfl

end

/-! ### Expressions -/

section
variable {level : Level} {n rounds strength count : Nat} {e e' left right : Expr}

theorem primaryName {word : String} (ht : t.kind = .name word) :
    Gives deep (Parser.primary level n) (t :: ts) (.name word) ts := by
  rw [Parser.primary]
  refine advance (by rw [ht]; rfl) ?_
  simp only [ht]
  exact pure

theorem primaryString {text : String} (ht : t.kind = .string text) :
    Gives deep (Parser.primary level n) (t :: ts) (.string text) ts := by
  rw [Parser.primary]
  refine advance (by rw [ht]; rfl) ?_
  simp only [ht]
  exact pure

/-- A function without a name. -/
theorem primaryFunction (ht : t.kind = .keyword .function) {u : Token}
    (hu : u.kind = .sign .openParen) {d : Definition}
    (h : Gives deep (Parser.definitionRest level n none) (u :: ts) d rest) :
    Gives deep (Parser.primary level n) (t :: u :: ts) (.function d) rest := by
  rw [Parser.primary]
  refine advance (by rw [ht]; rfl) ?_
  simp only [ht]
  exact noName (by rw [hu]; exact fun _ h => by cases h) (bind h pure)

theorem primaryEmptyObject (ht : t.kind = .sign .openBrace) {u : Token}
    (hu : u.kind = .sign .closeBrace) (hn : 0 < n) :
    Gives deep (Parser.primary level n) (t :: u :: ts) (.object []) ts := by
  obtain ⟨n, rfl⟩ : ∃ m, n = m + 1 := ⟨n - 1, by omega⟩
  have hnone : Gives deep (Parser.fields level (n + 1)) (u :: ts) [] (u :: ts) := by
    rw [Parser.fields]
    refine atSign ?_
    simp only [headKind, hu]
    exact pure
  rw [Parser.primary]
  refine advance (by rw [ht]; rfl) ?_
  simp only [ht]
  exact bind hnone (expect hu pure)

theorem suffixesNone (h : ∀ sign ∈ [Punctuator.dot, .openBracket, .openParen],
    (headKind ts).isSign sign = false) : Gives deep (Parser.suffixes level n rounds e) ts e ts := by
  cases rounds with
  | zero => exact pure
  | succ rounds =>
      rw [Parser.suffixes]
      exact pass (h _ (by decide)) (pass (h _ (by decide)) (pass (h _ (by decide)) pure))

theorem suffixesDone (h : EndsOperand (headKind ts)) :
    Gives deep (Parser.suffixes level n rounds e) ts e ts :=
  suffixesNone fun sign hs =>
    h sign (List.mem_append_left [Punctuator.increment, Punctuator.decrement] hs)

theorem suffixesMember {key : String} {u : Token} (ht : t.kind = .sign .dot)
    (hu : u.kind = .name key)
    (h : Gives deep (Parser.suffixes level n rounds (.member e key)) ts e' rest) :
    Gives deep (Parser.suffixes level n (rounds + 1) e) (t :: u :: ts) e' rest := by
  rw [Parser.suffixes]
  refine accept ht (peekKind ?_)
  simp only [headKind, hu, memberName]
  exact advance (by rw [hu]; rfl) h

/-- A call with one argument. -/
theorem suffixesCall {argument : Expr} {u : Token} (ht : t.kind = .sign .openParen)
    (hc : (headKind ts).isSign .closeParen = false)
    (ha : Gives deep level.assignment ts argument (u :: mid)) (hu : u.kind = .sign .closeParen)
    (hn : 0 < n)
    (h : Gives deep (Parser.suffixes level n rounds (.call e [argument])) mid e' rest) :
    Gives deep (Parser.suffixes level n (rounds + 1) e) (t :: ts) e' rest := by
  obtain ⟨n, rfl⟩ : ∃ m, n = m + 1 := ⟨n - 1, by omega⟩
  have all : Gives deep (Parser.items level .closeParen (n + 1)) ts [argument] (u :: mid) := by
    rw [Parser.items]
    refine atSign ?_
    rw [hc]
    exact bind ha (pass (by rw [headKind, hu]; rfl) pure)
  rw [Parser.suffixes]
  refine pass (by rw [headKind, ht]; rfl) (pass (by rw [headKind, ht]; rfl) (accept ht ?_))
  exact bind (bind all (expect hu pure)) h

theorem postfixed (hp : Gives deep (Parser.primary level n) ts e mid)
    (hs : Gives deep (Parser.suffixes level n n e) mid e' rest)
    (hr : EndsOperand (headKind rest)) : Gives deep (Parser.postfixed level n) ts e' rest := by
  have hi := hr .increment (by decide)
  have hd := hr .decrement (by decide)
  rw [Parser.postfixed]
  refine bind hp (bind hs ?_)
  cases rest with
  | nil => exact pure
  | cons t ts =>
      refine bind (.of_run (run_peek t ts)) ?_
      simp only [show t.kind.isSign .increment = false from hi,
        show t.kind.isSign .decrement = false from hd]
      exact pure

theorem unaryBody (hop : unaryOp (headKind ts) = none)
    (hi : (headKind ts).isSign .increment = false) (hd : (headKind ts).isSign .decrement = false)
    (h : Gives deep (Parser.postfixed level n) ts e rest) :
    Gives deep (Parser.unaryBody level n) ts e rest := by
  rw [Parser.unaryBody]
  refine peekKind ?_
  simp only [hop, hi, hd]
  exact h

/-- An operand that begins with a name. -/
theorem unaryName {word : String} (ht : t.kind = .name word)
    (hs : Gives deep (Parser.suffixes level n n (.name word)) ts e rest)
    (hr : EndsOperand (headKind rest)) : Gives deep (Parser.unaryBody level n) (t :: ts) e rest := by
  refine unaryBody ?_ ?_ ?_ (postfixed (primaryName ht) hs hr) <;> rw [headKind, ht] <;> rfl

/-- A name as an operand. -/
theorem nameOperand {word : String} {room : Nat} (ht : t.kind = .name word)
    (hr : EndsOperand (headKind ts)) :
    Gives deep (Parser.infixed (levels n (room + 1)) n 0) (t :: ts) (.name word) ts :=
  unaryName ht (suffixesDone hr) hr

theorem chainDone {operand : Parser Expr} (h : infixOfStrength strength (headKind ts) = none) :
    Gives deep (Parser.chain operand strength rounds e) ts e ts := by
  cases rounds with
  | zero => exact pure
  | succ rounds =>
      rw [Parser.chain]
      refine peekKind ?_
      simp only [h]
      exact pure

theorem chainStep {operand : Parser Expr} (op : InfixOp)
    (ht : infixOfStrength strength t.kind = some op) (hright : Gives deep operand ts right mid)
    (h : Gives deep (Parser.chain operand strength rounds (op.apply left right)) mid e rest) :
    Gives deep (Parser.chain operand strength (rounds + 1) left) (t :: ts) e rest := by
  rw [Parser.chain]
  refine peekKind ?_
  simp only [headKind, ht]
  exact advance (TokenKind.isStop_of_some ht rfl) (bind hright h)

/-- An operand that no operator of greater strengths follows. -/
theorem infixed {count' : Nat} (h : Gives deep (Parser.infixed level n count) ts e rest)
    (hr : ∀ k, k < count' → infixOfStrength (7 - k) (headKind rest) = none)
    (hc : count ≤ count') : Gives deep (Parser.infixed level n count') ts e rest := by
  induction hc with
  | refl => exact h
  | @step m hm ih =>
      exact bind (ih fun k hk => hr k (Nat.lt_succ_of_lt hk)) (chainDone (hr m (Nat.lt_succ_self m)))

theorem conditional (h : Gives deep (Parser.infixed level n 7) ts e rest)
    (hr : (headKind rest).isSign .question = false) :
    Gives deep (Parser.conditional level n) ts e rest :=
  bind h (pass hr pure)

theorem assignmentBody (h : Gives deep (Parser.conditional level n) ts e rest)
    (hr : assignOp (headKind rest) = none) :
    Gives deep (Parser.assignmentBody level n) ts e rest := by
  refine bind h (peekKind ?_)
  simp only [hr]
  exact pure

/-- An operand alone. -/
theorem operand (h : Gives deep level.unary ts e rest) (hr : EndsExpr (headKind rest)) :
    Gives deep (Parser.assignmentBody level n) ts e rest := by
  have h : Gives deep (Parser.infixed level n 0) ts e rest := h
  exact assignmentBody (conditional (h.infixed (fun k _ => hr.infix_ _) (Nat.zero_le _)) hr.choice)
    hr.assign

theorem assign {op : Option BinaryOp} (h : Gives deep (Parser.conditional level n) ts left (t :: mid))
    (ht : assignOp t.kind = some op) (hl : left.isAssignable = true)
    (hv : Gives deep level.assignment mid e rest) :
    Gives deep (Parser.assignmentBody level n) ts (.assign op left e) rest := by
  refine bind h (peekKind ?_)
  simp only [headKind, ht, hl, if_true]
  exact advance (TokenKind.isStop_of_some ht rfl) (bind hv pure)

end

/-! ### Functions -/

section
variable {level : Level} {n : Nat}

/-- One parameter. -/
theorem parametersOne {word : String} {bound : Nat} (ht : t.kind = .name word)
    (hr : (headKind ts).isSign .comma = false) :
    Gives deep (Parser.parameters (bound + 1)) (t :: ts) ([word], none) ts := by
  have hsign : ∀ sign, (headKind (t :: ts)).isSign sign = false := by
    intro sign
    rw [headKind, ht]
    rfl
  rw [Parser.parameters]
  refine atSign ?_
  rw [hsign]
  exact pass (hsign _) (expectName ht (pass hr pure))

/-- Only a parameter for the remaining arguments. -/
theorem parametersRest {word : String} {bound : Nat} {u : Token} (ht : t.kind = .sign .ellipsis)
    (hu : u.kind = .name word) :
    Gives deep (Parser.parameters (bound + 1)) (t :: u :: ts) ([], some word) ts := by
  rw [Parser.parameters]
  refine atSign ?_
  rw [headKind, ht]
  exact accept ht (expectName hu pure)

/-- A function from its parameters on. -/
theorem definitionRest {name : Option String} {names : List String} {last : Option String}
    {body : List Stmt} {mid' : List Token} {t₁ t₂ t₃ t₄ : Token} (h₁ : t₁.kind = .sign .openParen)
    (hp : Gives deep (Parser.parameters n) ts (names, last) (t₂ :: t₃ :: mid))
    (h₂ : t₂.kind = .sign .closeParen) (h₃ : t₃.kind = .sign .openBrace)
    (hb : Gives deep (Parser.statements level false n) mid body (t₄ :: mid'))
    (h₄ : t₄.kind = .sign .closeBrace) :
    Gives deep (Parser.definitionRest level n name) (t₁ :: ts) ⟨name, names, last, body⟩ mid' := by
  rw [Parser.definitionRest]
  refine expect h₁ (bind hp (expect h₂ (bind ?_ pure)))
  rw [Parser.braced]
  exact expect h₃ (bind hb (expect h₄ pure))

end

/-! ### Statements -/

section
variable {level : Level} {n bound : Nat} {inLoop : Bool} {e : Expr} {s : Stmt} {others : List Stmt}

/-- An expression that begins with a name, as a statement. -/
theorem exprStatement {word : String} (ht : t.kind = .name word)
    (h : Gives deep level.assignment (t :: ts) e mid)
    (hend : Gives deep Parser.endStatement mid () rest) :
    Gives deep (Parser.statementBody level n inLoop) (t :: ts) (.expr e) rest := by
  rw [Parser.statementBody]
  refine peekKind ?_
  simp only [headKind, ht, declKind]
  exact bind h (bind hend pure)

theorem declareStatement {kind : DeclKind} {all : List (String × Option Expr)} {word : Keyword}
    (ht : t.kind = .keyword word) (hk : declKind (.keyword word) = some kind)
    (h : Gives deep (Parser.bindings level kind n) ts all mid)
    (hend : Gives deep Parser.endStatement mid () rest) :
    Gives deep (Parser.statementBody level n inLoop) (t :: ts) (.declare kind all) rest := by
  rw [Parser.statementBody]
  refine peekKind ?_
  simp only [headKind, ht]
  cases word with
  | var | «let» | const =>
      cases hk
      exact advance (by rw [ht]; rfl) (bind h (bind hend pure))
  | _ => cases hk

theorem statementsCons (hk : ((headKind ts).isSign .closeBrace || (headKind ts).isStop) = false)
    (h : Gives deep (level.statement inLoop) ts s mid)
    (ho : Gives deep (Parser.statements level inLoop bound) mid others rest) :
    Gives deep (Parser.statements level inLoop (bound + 1)) ts (s :: others) rest := by
  rw [statements_succ]
  refine peekKind ?_
  simp only [hk]
  exact bind h (bind ho pure)

theorem binding {kind : DeclKind} {word : String} {u : Token} (ht : t.kind = .name word)
    (hu : u.kind = .sign .assign) (h : Gives deep level.assignment ts e rest) :
    Gives deep (Parser.binding level kind) (t :: u :: ts) (word, some e) rest := by
  rw [Parser.binding]
  exact expectName ht (accept hu (bind h pure))

/-- A name without a value. -/
theorem bindingBare {kind : DeclKind} {word : String} (ht : t.kind = .name word)
    (hr : (headKind ts).isSign .assign = false) (hk : kind ≠ .const) :
    Gives deep (Parser.binding level kind) (t :: ts) (word, none) ts := by
  rw [Parser.binding]
  refine expectName ht (pass hr ?_)
  rw [if_neg Bool.false_ne_true, if_neg hk]
  exact pure

theorem bindingsLast {kind : DeclKind} {b : String × Option Expr}
    (h : Gives deep (Parser.binding level kind) ts b rest)
    (hr : (headKind rest).isSign .comma = false) :
    Gives deep (Parser.bindings level kind (bound + 1)) ts [b] rest := by
  rw [Parser.bindings]
  exact bind h (pass hr pure)

theorem bindingsCons {kind : DeclKind} {b : String × Option Expr}
    {all : List (String × Option Expr)} (h : Gives deep (Parser.binding level kind) ts b (t :: mid))
    (ht : t.kind = .sign .comma)
    (ho : Gives deep (Parser.bindings level kind bound) mid all rest) :
    Gives deep (Parser.bindings level kind (bound + 1)) ts (b :: all) rest := by
  rw [Parser.bindings]
  exact bind h (accept ht (bind ho pure))

end

end Gives

end Stencil.Script.Parser
