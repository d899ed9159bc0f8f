import Stencil.Proofs.Grammar.Forms
import Stencil.Proofs.Tokens.Spelled

/-!
# Grammar — canonical texts

A tree has one canonical text: each expression in parentheses, one space between tokens, a semicolon
after each simple statement, braces where the tree has blocks, and the keys of objects as strings.
`kindsBody` and `Definition.kinds` give its tokens, `spelled` writes them out.

`Formed` (`Formed.lean`) and `Writable` say of which trees this is a text of the language at all, and
`nesting` how many levels the text opens at once.
-/

namespace Stencil.Script

/-! ### Signs -/

/-- What stands for a unary operator. -/
def UnaryOp.kind : UnaryOp → TokenKind
  | .not => .sign .not
  | .negate => .sign .minus
  | .plus => .sign .plus
  | .typeof => .keyword .typeof

/-- What stands for a binary operator. -/
def BinaryOp.sign : BinaryOp → Punctuator
  | .add => .plus
  | .sub => .minus
  | .mul => .times
  | .div => .divide
  | .rem => .remainder
  | .equal => .equal
  | .notEqual => .notEqual
  | .same => .same
  | .notSame => .notSame
  | .less => .less
  | .lessEqual => .lessEqual
  | .greater => .greater
  | .greaterEqual => .greaterEqual

/-- What stands for a logical operator. -/
def LogicalOp.sign : LogicalOp → Punctuator
  | .and => .and
  | .or => .or
  | .nullish => .nullish

/-- What stands for an increment or a decrement. -/
def updateSign (increment : Bool) : Punctuator :=
  if increment then .increment else .decrement

/-- What stands for an assignment; only arithmetic has a sign of its own. -/
def assignSign : Option BinaryOp → Punctuator
  | some .add => .plusAssign
  | some .sub => .minusAssign
  | some .mul => .timesAssign
  | some .div => .divideAssign
  | some .rem => .remainderAssign
  | _ => .assign

/-- The keyword of a declaration. -/
def DeclKind.keyword : DeclKind → Keyword
  | .var => .var
  | .let => .let
  | .const => .const

/-- A loop variable with its keyword. -/
def LoopBinding.kinds (b : LoopBinding) : List TokenKind :=
  (b.kind.map fun kind => .keyword kind.keyword).toList ++ [.name b.name]

/-- Tokens in parentheses. -/
def parens (inner : List TokenKind) : List TokenKind :=
  .sign .openParen :: (inner ++ [.sign .closeParen])

/-- Tokens in braces. -/
def braces (inner : List TokenKind) : List TokenKind :=
  .sign .openBrace :: (inner ++ [.sign .closeBrace])

/-- Parameters. -/
@[simp] def kindsParameters : List String → Option String → List TokenKind
  | [], none => []
  | [], some rest => [.sign .ellipsis, .name rest]
  | word :: words, rest =>
    .name word :: (if words.isEmpty && rest.isNone then []
      else .sign .comma :: kindsParameters words rest)

/-! ### Tokens -/

mutual

/-- The tokens of an expression inside its parentheses. -/
@[simp] def Expr.inner : Expr → List TokenKind
  | .number value => [.number value]
  | .string value => [.string value]
  | .bool value => [.keyword (if value then .true else .false)]
  | .null => [.keyword .null]
  | .name word => [.name word]
  | .array items => .sign .openBracket :: (kindsAll items ++ [.sign .closeBracket])
  | .object fields => braces (kindsFields fields)
  | .function definition => .keyword .function :: definition.kinds
  | .member object key => parens object.inner ++ [.sign .dot, wordKind key]
  | .index object key =>
    parens object.inner ++ .sign .openBracket :: (parens key.inner ++ [.sign .closeBracket])
  | .call callee arguments => parens callee.inner ++ parens (kindsAll arguments)
  | .unary op operand => op.kind :: parens operand.inner
  | .update increment before target =>
    if before then .sign (updateSign increment) :: parens target.inner
    else parens target.inner ++ [.sign (updateSign increment)]
  | .binary op left right => parens left.inner ++ .sign op.sign :: parens right.inner
  | .logical op left right => parens left.inner ++ .sign op.sign :: parens right.inner
  | .conditional test yes no =>
    parens test.inner ++ .sign .question :: (parens yes.inner ++ .sign .colon :: parens no.inner)
  | .assign op target value =>
    parens target.inner ++ .sign (assignSign op) :: parens value.inner

/-- Expressions separated by commas. -/
@[simp] def kindsAll : List Expr → List TokenKind
  | [] => []
  | e :: rest =>
    parens e.inner ++ (if rest.isEmpty then [] else .sign .comma :: kindsAll rest)

/-- Fields separated by commas. -/
@[simp] def kindsFields : List (String × Expr) → List TokenKind
  | [] => []
  | (key, value) :: rest =>
    .string key :: .sign .colon :: (parens value.inner ++
      (if rest.isEmpty then [] else .sign .comma :: kindsFields rest))

/-- A function after its keyword. -/
@[simp] def Definition.kinds : Definition → List TokenKind
  | .mk name parameters rest body =>
    (name.map .name).toList ++ (parens (kindsParameters parameters rest) ++ braces (kindsBody body))

/-- The tokens of a statement. -/
@[simp] def Stmt.kinds : Stmt → List TokenKind
  | .expr e => parens e.inner ++ [.sign .semicolon]
  | .declare kind bindings =>
    .keyword kind.keyword :: (kindsBindings bindings ++ [.sign .semicolon])
  | .function definition => .keyword .function :: definition.kinds
  | .block body => braces (kindsBody body)
  | .branch test yes no =>
    .keyword .if :: (parens (parens test.inner) ++ (yes.kinds ++ kindsElse no))
  | .loop init test update body =>
    .keyword .for :: (parens (kindsInit init ++ .sign .semicolon :: (kindsOption test ++
      .sign .semicolon :: kindsOption update)) ++ body.kinds)
  | .forIn binding subject body =>
    .keyword .for :: (parens (binding.kinds ++ .keyword .in :: parens subject.inner) ++ body.kinds)
  | .forOf binding subject body =>
    .keyword .for :: (parens (binding.kinds ++ .name "of" :: parens subject.inner) ++ body.kinds)
  | .whileLoop test body => .keyword .while :: (parens (parens test.inner) ++ body.kinds)
  | .break => [.keyword .break, .sign .semicolon]
  | .continue => [.keyword .continue, .sign .semicolon]
  | .return value => .keyword .return :: (kindsOption value ++ [.sign .semicolon])
  | .empty => [.sign .semicolon]

/-- An expression that may be absent. -/
@[simp] def kindsOption : Option Expr → List TokenKind
  | none => []
  | some e => parens e.inner

/-- The other branch, if there is one. -/
@[simp] def kindsElse : Option Stmt → List TokenKind
  | none => []
  | some s => .keyword .else :: s.kinds

/-- The first part of a loop header. -/
@[simp] def kindsInit : Option Stmt → List TokenKind
  | some (.expr e) => parens e.inner
  | some (.declare kind bindings) => .keyword kind.keyword :: kindsBindings bindings
  | _ => []

/-- The names of a declaration with their values. -/
@[simp] def kindsBindings : List (String × Option Expr) → List TokenKind
  | [] => []
  | (name, value) :: rest =>
    .name name :: (kindsValue value ++
      (if rest.isEmpty then [] else .sign .comma :: kindsBindings rest))

/-- The value of a name that is declared. -/
@[simp] def kindsValue : Option Expr → List TokenKind
  | none => []
  | some e => .sign .assign :: parens e.inner

/-- The tokens of statements. -/
@[simp] def kindsBody : List Stmt → List TokenKind
  | [] => []
  | s :: rest => s.kinds ++ kindsBody rest

end

/-! ### What can be written -/

/-- Whether a statement ends in a branch that an `else` after it would belong to. -/
def Stmt.endsOpen : Stmt → Bool
  | .branch _ _ none => true
  | .branch _ _ (some no) => no.endsOpen
  | .loop _ _ _ body => body.endsOpen
  | .forIn _ _ body => body.endsOpen
  | .forOf _ _ body => body.endsOpen
  | .whileLoop _ body => body.endsOpen
  | _ => false

/-- Whether a word can stand after a dot. -/
def isKey (word : String) : Bool :=
  isName word || (Keyword.ofSpelling? word).isSome

mutual

/-- Expressions that a text can say, apart from what `Expr.Formed` asks for. -/
def Expr.Writable : Expr → Prop
  | .number value => isLiteral value = true
  | .string _ => True
  | .bool _ => True
  | .null => True
  | .name _ => True
  | .array items => WritableAll items
  | .object fields => WritableFields fields
  | .function definition => definition.Writable
  | .member object key => object.Writable ∧ isKey key = true
  | .index object key => object.Writable ∧ key.Writable
  | .call callee arguments => callee.Writable ∧ WritableAll arguments
  | .unary _ operand => operand.Writable
  | .update _ _ target => target.Writable
  | .binary _ left right => left.Writable ∧ right.Writable
  | .logical _ left right => left.Writable ∧ right.Writable
  | .conditional test yes no => test.Writable ∧ yes.Writable ∧ no.Writable
  | .assign op target value =>
    Parser.assignOp (.sign (assignSign op)) = some op ∧ target.Writable ∧ value.Writable

/-- Lists of expressions that a text can say. -/
def WritableAll : List Expr → Prop
  | [] => True
  | e :: rest => e.Writable ∧ WritableAll rest

/-- Fields that a text can say. -/
def WritableFields : List (String × Expr) → Prop
  | [] => True
  | (_, value) :: rest => value.Writable ∧ WritableFields rest

/-- Functions that a text can say. -/
def Definition.Writable : Definition → Prop
  | .mk _ _ _ body => WritableBody body

/-- Statements that a text can say: a declaration declares something, and no `else` goes astray. -/
def Stmt.Writable : Stmt → Prop
  | .expr e => e.Writable
  | .declare _ bindings => bindings ≠ [] ∧ WritableBindings bindings
  | .function definition => definition.Writable
  | .block body => WritableBody body
  | .branch test yes no =>
    test.Writable ∧ yes.Writable ∧ (no.isSome = true → yes.endsOpen = false) ∧ WritableStmt no
  | .loop init test update body =>
    WritableStmt init ∧ WritableOption test ∧ WritableOption update ∧ body.Writable
  | .forIn _ subject body => subject.Writable ∧ body.Writable
  | .forOf _ subject body => subject.Writable ∧ body.Writable
  | .whileLoop test body => test.Writable ∧ body.Writable
  | .break => True
  | .continue => True
  | .return value => WritableOption value
  | .empty => True

/-- Optional expressions that a text can say. -/
def WritableOption : Option Expr → Prop
  | none => True
  | some e => e.Writable

/-- Optional statements that a text can say. -/
def WritableStmt : Option Stmt → Prop
  | none => True
  | some s => s.Writable

/-- Names with values that a text can say. -/
def WritableBindings : List (String × Option Expr) → Prop
  | [] => True
  | (_, value) :: rest => WritableOption value ∧ WritableBindings rest

/-- Statement lists that a text can say. -/
def WritableBody : List Stmt → Prop
  | [] => True
  | s :: rest => s.Writable ∧ WritableBody rest

end

/-! ### Nesting -/

mutual

/-- The levels that the tokens of an expression inside its parentheses open at once.  The parentheses
open one more as an operand and two more as an expression. -/
@[simp] def Expr.nesting : Expr → Nat
  | .number _ => 2
  | .string _ => 2
  | .bool _ => 2
  | .null => 2
  | .name _ => 2
  | .array items => 2 + nestingAll items
  | .object fields => 2 + nestingFields fields
  | .function definition => 2 + definition.nesting
  | .member object _ => 2 + object.nesting
  | .index object key => 2 + max object.nesting (2 + key.nesting)
  | .call callee arguments => 2 + max callee.nesting (nestingAll arguments)
  | .unary _ operand => 3 + operand.nesting
  | .update _ before target => (if before then 3 else 2) + target.nesting
  | .binary _ left right => 2 + max left.nesting right.nesting
  | .logical _ left right => 2 + max left.nesting right.nesting
  | .conditional test yes no => 2 + max test.nesting (max (1 + yes.nesting) (1 + no.nesting))
  | .assign _ target value => 2 + max target.nesting (1 + value.nesting)

/-- The levels that expressions open. -/
@[simp] def nestingAll : List Expr → Nat
  | [] => 0
  | e :: rest => max (2 + e.nesting) (nestingAll rest)

/-- The levels that the values of fields open. -/
@[simp] def nestingFields : List (String × Expr) → Nat
  | [] => 0
  | (_, value) :: rest => max (2 + value.nesting) (nestingFields rest)

/-- The levels that a function opens. -/
@[simp] def Definition.nesting : Definition → Nat
  | .mk _ _ _ body => nestingBody body

/-- The levels that a statement opens. -/
@[simp] def Stmt.nesting : Stmt → Nat
  | .expr e => 3 + e.nesting
  | .declare _ bindings => 1 + nestingBindings bindings
  | .function definition => 1 + definition.nesting
  | .block body => 1 + nestingBody body
  | .branch test yes no => 1 + max (2 + test.nesting) (max yes.nesting (nestingStmt no))
  | .loop init test update body =>
    1 + max (nestingInit init) (max (max (nestingOption test) (nestingOption update)) body.nesting)
  | .forIn _ subject body => 1 + max (2 + subject.nesting) body.nesting
  | .forOf _ subject body => 1 + max (2 + subject.nesting) body.nesting
  | .whileLoop test body => 1 + max (2 + test.nesting) body.nesting
  | .break => 1
  | .continue => 1
  | .return value => 1 + nestingOption value
  | .empty => 1

/-- The levels that an optional expression opens. -/
@[simp] def nestingOption : Option Expr → Nat
  | none => 0
  | some e => 2 + e.nesting

/-- The levels that an optional statement opens. -/
@[simp] def nestingStmt : Option Stmt → Nat
  | none => 0
  | some s => s.nesting

/-- The levels that the first part of a loop header opens. -/
@[simp] def nestingInit : Option Stmt → Nat
  | some (.expr e) => 2 + e.nesting
  | some (.declare _ bindings) => nestingBindings bindings
  | _ => 0

/-- The levels that the values of a declaration open. -/
@[simp] def nestingBindings : List (String × Option Expr) → Nat
  | [] => 0
  | (_, value) :: rest => max (nestingOption value) (nestingBindings rest)

/-- The levels that statements open. -/
@[simp] def nestingBody : List Stmt → Nat
  | [] => 0
  | s :: rest => max s.nesting (nestingBody rest)

end

/-! ### Texts -/

/-- The canonical text of the body of a function. -/
def bodyText (body : List Stmt) : String :=
  String.ofList (spelled (kindsBody body))

/-- The canonical text of a function. -/
def Definition.text (d : Definition) : String :=
  String.ofList (spelled (.keyword .function :: d.kinds))

/-! ### Tokens that can be written -/

/-- Whether all tokens can be written. -/
def AllWritable (kinds : List TokenKind) : Prop :=
  ∀ kind ∈ kinds, kind.Writable

section
variable {kinds kinds' : List TokenKind}

@[simp] theorem allWritable_nil : AllWritable [] := fun _ h => by cases h

@[simp] theorem allWritable_cons {kind : TokenKind} :
    AllWritable (kind :: kinds) ↔ kind.Writable ∧ AllWritable kinds :=
  List.forall_mem_cons

@[simp] theorem allWritable_append :
    AllWritable (kinds ++ kinds') ↔ AllWritable kinds ∧ AllWritable kinds' :=
  List.forall_mem_append

@[simp] theorem writable_sign (sign : Punctuator) : (TokenKind.sign sign).Writable := trivial

@[simp] theorem writable_keyword (word : Keyword) : (TokenKind.keyword word).Writable := trivial

@[simp] theorem writable_string (value : String) : (TokenKind.string value).Writable := trivial

@[simp] theorem allWritable_parens : AllWritable (parens kinds) ↔ AllWritable kinds := by
  simp [parens]

@[simp] theorem allWritable_braces : AllWritable (braces kinds) ↔ AllWritable kinds := by
  simp [braces]

theorem AllWritable.more {α : Type} (rest : List α) (h : AllWritable kinds) :
    AllWritable (if rest.isEmpty then [] else .sign .comma :: kinds) := by
  split
  · exact allWritable_nil
  · exact allWritable_cons.mpr ⟨trivial, h⟩

end

theorem writable_wordKind {key : String} (h : isKey key = true) : (wordKind key).Writable := by
  rw [wordKind]
  split
  · trivial
  · rename_i hnone
    rw [isKey, hnone, Option.isSome_none, Bool.or_false] at h
    exact h

theorem UnaryOp.writable_kind (op : UnaryOp) : op.kind.Writable := by
  cases op <;> trivial

theorem allWritable_parameters {names : List String} {last : Option String}
    (h : ∀ word ∈ names ++ last.toList, isName word = true) :
    AllWritable (kindsParameters names last) := by
  induction names with
  | nil =>
      cases last with
      | none => exact allWritable_nil
      | some word =>
          exact allWritable_cons.mpr ⟨trivial, allWritable_cons.mpr ⟨h word (by simp), allWritable_nil⟩⟩
  | cons word names ih =>
      have hword : isName word = true := h word List.mem_cons_self
      have hrest := ih fun w hw => h w (List.mem_cons_of_mem _ hw)
      rw [kindsParameters]
      refine allWritable_cons.mpr ⟨hword, ?_⟩
      split
      · exact allWritable_nil
      · exact allWritable_cons.mpr ⟨trivial, hrest⟩

theorem LoopBinding.allWritable {b : LoopBinding} (h : isName b.name = true) : AllWritable b.kinds := by
  obtain ⟨kind, name⟩ := b
  have hname : (TokenKind.name name).Writable := h
  cases kind <;> simp [LoopBinding.kinds, hname]

theorem writable_of : (TokenKind.name "of").Writable := by
  show isName "of" = true
  decide

mutual

theorem allWritable_inner : ∀ e : Expr, e.Formed → e.Writable → AllWritable e.inner
  | .number _, _, hw => allWritable_cons.mpr ⟨hw, allWritable_nil⟩
  | .string _, _, _ => by simp
  | .bool _, _, _ => by simp
  | .null, _, _ => by simp
  | .name _, hf, _ => allWritable_cons.mpr ⟨hf, allWritable_nil⟩
  | .array items, hf, hw => by simp [allWritable_all items hf hw]
  | .object fields, hf, hw => by simp [allWritable_fields fields hf hw]
  | .function d, hf, hw => allWritable_cons.mpr ⟨trivial, allWritable_kinds d hf hw⟩
  | .member object key, hf, hw => by
      simp [allWritable_inner object hf hw.1, writable_wordKind hw.2]
  | .index object key, hf, hw => by
      simp [allWritable_inner object hf.1 hw.1, allWritable_inner key hf.2 hw.2]
  | .call callee arguments, hf, hw => by
      simp [allWritable_inner callee hf.1 hw.1, allWritable_all arguments hf.2 hw.2]
  | .unary op operand, hf, hw => by
      simp [op.writable_kind, allWritable_inner operand hf hw]
  | .update _ before target, hf, hw => by
      cases before <;> simp [allWritable_inner target hf.2 hw]
  | .binary _ left right, hf, hw => by
      simp [allWritable_inner left hf.1 hw.1, allWritable_inner right hf.2 hw.2]
  | .logical _ left right, hf, hw => by
      simp [allWritable_inner left hf.1 hw.1, allWritable_inner right hf.2 hw.2]
  | .conditional test yes no, hf, hw => by
      simp [allWritable_inner test hf.1 hw.1, allWritable_inner yes hf.2.1 hw.2.1,
        allWritable_inner no hf.2.2 hw.2.2]
  | .assign _ target value, hf, hw => by
      simp [allWritable_inner target hf.2.1 hw.2.1, allWritable_inner value hf.2.2 hw.2.2]

theorem allWritable_all : ∀ items : List Expr, FormedAll items → WritableAll items →
    AllWritable (kindsAll items)
  | [], _, _ => allWritable_nil
  | e :: rest, hf, hw => by
      rw [kindsAll]
      simp [allWritable_inner e hf.1 hw.1, (allWritable_all rest hf.2 hw.2).more rest,
        -List.isEmpty_iff]

theorem allWritable_fields : ∀ fields : List (String × Expr), FormedFields fields →
    WritableFields fields → AllWritable (kindsFields fields)
  | [], _, _ => allWritable_nil
  | (_, value) :: rest, hf, hw => by
      rw [kindsFields]
      simp [allWritable_inner value hf.1 hw.1, (allWritable_fields rest hf.2 hw.2).more rest,
        -List.isEmpty_iff]

theorem allWritable_kinds : ∀ d : Definition, d.Formed → d.Writable → AllWritable d.kinds
  | .mk name parameters last body, hf, hw => by
      have hbody := allWritable_body body hf.2 hw
      have hparameters : AllWritable (kindsParameters parameters last) :=
        allWritable_parameters fun word hword => hf.1 word (List.mem_append_right _ hword)
      have hname : AllWritable (name.map TokenKind.name).toList := by
        cases name with
        | none => exact allWritable_nil
        | some word => exact allWritable_cons.mpr ⟨hf.1 word (by simp), allWritable_nil⟩
      simp [hbody, hparameters, hname]

theorem allWritable_stmt {p : Prop} : ∀ s : Stmt, s.Formed p → s.Writable → AllWritable s.kinds
  | .expr e, hf, hw => by simp [allWritable_inner e hf hw]
  | .declare kind bindings, hf, hw => by simp [allWritable_bindings bindings hf hw.2]
  | .function d, hf, hw => allWritable_cons.mpr ⟨trivial, allWritable_kinds d hf.2 hw⟩
  | .block body, hf, hw => by simp [allWritable_body body hf hw]
  | .branch test yes no, hf, hw => by
      simp [allWritable_inner test hf.1 hw.1, allWritable_stmt yes hf.2.1 hw.2.1,
        allWritable_else no hf.2.2 hw.2.2.2]
  | .loop init test update body, hf, hw => by
      simp [allWritable_init init hf.2.1 hw.1, allWritable_option test hf.2.2.1 hw.2.1,
        allWritable_option update hf.2.2.2.1 hw.2.2.1, allWritable_stmt body hf.2.2.2.2 hw.2.2.2]
  | .forIn binding subject body, hf, hw => by
      simp [LoopBinding.allWritable hf.1, allWritable_inner subject hf.2.1 hw.1,
        allWritable_stmt body hf.2.2 hw.2]
  | .forOf binding subject body, hf, hw => by
      simp [LoopBinding.allWritable hf.1, writable_of, allWritable_inner subject hf.2.1 hw.1,
        allWritable_stmt body hf.2.2 hw.2]
  | .whileLoop test body, hf, hw => by
      simp [allWritable_inner test hf.1 hw.1, allWritable_stmt body hf.2 hw.2]
  | .break, _, _ => by simp
  | .continue, _, _ => by simp
  | .return value, hf, hw => by simp [allWritable_option value hf hw]
  | .empty, _, _ => by simp

theorem allWritable_option : ∀ value : Option Expr, FormedOption value → WritableOption value →
    AllWritable (kindsOption value)
  | none, _, _ => allWritable_nil
  | some e, hf, hw => by simp [allWritable_inner e hf hw]

theorem allWritable_else {p : Prop} : ∀ no : Option Stmt, FormedStmt p no → WritableStmt no →
    AllWritable (kindsElse no)
  | none, _, _ => allWritable_nil
  | some s, hf, hw => by simp [allWritable_stmt s hf hw]

theorem allWritable_init {p : Prop} : ∀ init : Option Stmt, FormedStmt p init → WritableStmt init →
    AllWritable (kindsInit init)
  | none, _, _ => allWritable_nil
  | some s, hf, hw => by
      cases s with
      | expr e => simp [allWritable_inner e hf hw]
      | declare kind bindings => simp [allWritable_bindings bindings hf hw.2]
      | _ => exact allWritable_nil

theorem allWritable_bindings {kind : DeclKind} : ∀ bindings : List (String × Option Expr),
    FormedBindings kind bindings → WritableBindings bindings → AllWritable (kindsBindings bindings)
  | [], _, _ => allWritable_nil
  | (name, none) :: rest, hf, hw => by
      have hname : (TokenKind.name name).Writable := hf.1
      rw [kindsBindings]
      simp [hname, (allWritable_bindings rest hf.2.2.2 hw.2).more rest, -List.isEmpty_iff]
  | (name, some e) :: rest, hf, hw => by
      have hname : (TokenKind.name name).Writable := hf.1
      rw [kindsBindings]
      simp [hname, allWritable_inner e hf.2.2.1 hw.1,
        (allWritable_bindings rest hf.2.2.2 hw.2).more rest, -List.isEmpty_iff]

theorem allWritable_body {p : Prop} : ∀ body : List Stmt, FormedBody p body → WritableBody body →
    AllWritable (kindsBody body)
  | [], _, _ => allWritable_nil
  | s :: rest, hf, hw => by
      simp [allWritable_stmt s hf.1 hw.1, allWritable_body rest hf.2 hw.2]

end

end Stencil.Script
