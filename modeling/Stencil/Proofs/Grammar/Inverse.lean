import Stencil.Proofs.Grammar.Canonical
import Stencil.Proofs.Grammar.Whole

/-!
# Grammar — the parser inverts the canonical text

`Given n e`: with room for its nesting, the parser gives `e` on the tokens of `e` inside of
parentheses, whatever comes after these.  There is one rule for each form of expression, and the same
for statements (`GivenStmt`) and lists.
-/

namespace Stencil.Script
namespace Parser

/-! ### Tokens of given kinds -/

/-- Tokens of these kinds, all on one line. -/
def line (kinds : List TokenKind) : List Token :=
  kinds.map fun kind => ⟨kind, .start, false⟩

/-- A sign. -/
def signToken (sign : Punctuator) : Token := ⟨.sign sign, .start, false⟩

/-- The end of a text. -/
def stopToken : Token := ⟨.stop, .start, false⟩

section
variable {kinds kinds' : List TokenKind} {rest : List Token}

theorem line_nil : line [] ++ rest = rest := rfl

theorem line_cons (kind : TokenKind) :
    line (kind :: kinds) ++ rest = ⟨kind, .start, false⟩ :: (line kinds ++ rest) := rfl

theorem line_append : line (kinds ++ kinds') ++ rest = line kinds ++ (line kinds' ++ rest) := by
  rw [line, List.map_append, List.append_assoc]
  rfl

theorem line_parens : line (parens kinds) ++ rest =
    signToken .openParen :: (line kinds ++ signToken .closeParen :: rest) := by
  rw [parens, line_cons, line_append]
  rfl

theorem line_braces : line (braces kinds) ++ rest =
    signToken .openBrace :: (line kinds ++ signToken .closeBrace :: rest) := by
  rw [braces, line_cons, line_append]
  rfl

end

theorem length_parens (kinds : List TokenKind) : (parens kinds).length = kinds.length + 2 := by
  simp [parens]

theorem length_braces (kinds : List TokenKind) : (braces kinds).length = kinds.length + 2 := by
  simp [braces]

/-! ### Lengths -/

theorem length_more {α : Type} {rest : List α} {more : List TokenKind} (h : rest = [] → more = []) :
    more.length ≤ (if rest.isEmpty then [] else TokenKind.sign .comma :: more).length := by
  cases rest with
  | nil => simp [h rfl]
  | cons a rest => simp

theorem length_kindsAll_cons (e : Expr) (rest : List Expr) :
    e.inner.length + 2 + (kindsAll rest).length ≤ (kindsAll (e :: rest)).length := by
  have := @length_more _ rest (kindsAll rest) fun h => by rw [h, kindsAll]
  rw [kindsAll, List.length_append, length_parens]
  omega

theorem length_kindsFields_cons (key : String) (value : Expr) (rest : List (String × Expr)) :
    value.inner.length + 2 + (kindsFields rest).length < (kindsFields ((key, value) :: rest)).length := by
  have := @length_more _ rest (kindsFields rest) fun h => by rw [h, kindsFields]
  rw [kindsFields, List.length_cons, List.length_cons, List.length_append, length_parens]
  omega

theorem length_kindsBindings_cons (name : String) (value : Option Expr)
    (rest : List (String × Option Expr)) : (kindsValue value).length + (kindsBindings rest).length <
      (kindsBindings ((name, value) :: rest)).length := by
  have := @length_more _ rest (kindsBindings rest) fun h => by rw [h, kindsBindings]
  rw [kindsBindings, List.length_cons, List.length_append]
  omega

theorem length_kinds_pos (s : Stmt) : 0 < s.kinds.length := by
  cases s <;> simp [parens, braces]

theorem length_kindsAll (items : List Expr) : items.length ≤ (kindsAll items).length := by
  induction items with
  | nil => exact Nat.le_refl 0
  | cons e rest ih =>
      have := length_kindsAll_cons e rest
      rw [List.length_cons]
      omega

theorem length_kindsFields (fields : List (String × Expr)) :
    fields.length ≤ (kindsFields fields).length := by
  induction fields with
  | nil => exact Nat.le_refl 0
  | cons field rest ih =>
      obtain ⟨key, value⟩ := field
      have := length_kindsFields_cons key value rest
      rw [List.length_cons]
      omega

theorem length_kindsBindings (bindings : List (String × Option Expr)) :
    bindings.length ≤ (kindsBindings bindings).length := by
  induction bindings with
  | nil => exact Nat.le_refl 0
  | cons binding rest ih =>
      obtain ⟨name, value⟩ := binding
      have := length_kindsBindings_cons name value rest
      rw [List.length_cons]
      omega

theorem length_kindsBody (body : List Stmt) : body.length ≤ (kindsBody body).length := by
  induction body with
  | nil => exact Nat.le_refl 0
  | cons s rest ih =>
      have := length_kinds_pos s
      rw [kindsBody, List.length_append, List.length_cons]
      omega

/-! ### Expressions -/

section
variable {n : Nat}

/-- **An expression on its tokens.** -/
def Given (n : Nat) (e : Expr) : Prop :=
  ∀ room, e.nesting ≤ room → ∀ rest, Gives False (levels n room).assignment
    (line e.inner ++ signToken .closeParen :: rest) e (signToken .closeParen :: rest)

variable {e e' : Expr} {room : Nat} {ts rest : List Token}

namespace Given

theorem primary (h : Given n e) (hroom : e.nesting ≤ room) :
    Gives False (Parser.primary (levels n room) n) (line (parens e.inner) ++ rest) e rest := by
  rw [line_parens]
  exact .primaryParen rfl (h room hroom rest) rfl

/-- An expression in its parentheses as an operand. -/
theorem operand (h : Given n e) (hroom : 1 + e.nesting ≤ room) (hr : EndsOperand (headKind rest)) :
    Gives False (levels n room).unary (line (parens e.inner) ++ rest) e rest := by
  rw [line_parens]
  exact .parenOperand (by omega) rfl (fun r hr' => h r (by omega) rest) rfl hr

/-- The same among operators that bind less strongly. -/
theorem among {count : Nat} {t : Token} (h : Given n e) (hroom : 1 + e.nesting ≤ room)
    (ht : EndsOperand t.kind) (hr : ∀ k < count, infixOfStrength (7 - k) t.kind = none) :
    Gives False (Parser.infixed (levels n room) n count) (line (parens e.inner) ++ t :: rest) e
      (t :: rest) :=
  have all : Gives False (levels n room).unary (line (parens e.inner) ++ t :: rest) e (t :: rest) :=
    h.operand hroom ht
  all.operands hr

/-- An expression in its parentheses. -/
theorem expr (h : Given n e) (hroom : 2 + e.nesting ≤ room) (hr : EndsExpr (headKind rest)) :
    Gives False (levels n room).assignment (line (parens e.inner) ++ rest) e rest :=
  .assignment (by omega) fun _ hr' => .operand (h.operand (by omega) hr.operand) hr

/-- Expressions that are operands. -/
theorem of_unary {k : Nat} (hk : e.nesting = 2 + k)
    (h : ∀ room, k ≤ room → ∀ rest, Gives False (Parser.unaryBody (levels n room) n)
      (line e.inner ++ signToken .closeParen :: rest) e (signToken .closeParen :: rest)) :
    Given n e := fun _ hroom rest =>
  .assignment (by omega) fun _ hr => .operand (.unary (by omega) fun _ hr' => h _ (by omega) rest)
    (endsExpr_sign (by decide))

/-- Expressions that begin with an operand in parentheses. -/
theorem of_suffixes {k : Nat} {suffix : List TokenKind} (hk : e'.nesting = 2 + k)
    (hinner : e'.inner = parens e.inner ++ suffix) (he : Given n e) (hnesting : e.nesting ≤ k)
    (h : ∀ room, k ≤ room → ∀ rest, Gives False (Parser.suffixes (levels n room) n n e)
      (line suffix ++ signToken .closeParen :: rest) e' (signToken .closeParen :: rest)) :
    Given n e' := by
  refine .of_unary hk fun room hroom rest => ?_
  have all := Gives.postfixed (he.primary (by omega)) (h room hroom rest)
    (@endsExpr_sign .closeParen (by decide)).operand
  rw [hinner, line_append]
  rw [line_parens] at all ⊢
  exact .unaryBody rfl rfl rfl all

/-- Expressions that are one token. -/
theorem atom {kind : TokenKind} (hinner : e.inner = [kind]) (ht : atom? kind = some e)
    (hk : e.nesting = 2) : Given n e := by
  intro room hroom rest
  rw [hinner]
  exact .assignment (by omega) fun _ hr => .operand (.atomOperand (by omega) ht
    (endsExpr_sign (by decide)).operand) (endsExpr_sign (by decide))

end Given

/-! ### Lists of expressions -/

/-- **Expressions separated by commas on their tokens.** -/
def GivenAll (n : Nat) (items : List Expr) : Prop :=
  ∀ room bound close rest, nestingAll items ≤ room → items.length ≤ bound →
    close = .closeParen ∨ close = .closeBracket →
    Gives False (Parser.items (levels n room) close bound)
      (line (kindsAll items) ++ signToken close :: rest) items (signToken close :: rest)

/-- **Fields separated by commas on their tokens.** -/
def GivenFields (n : Nat) (fields : List (String × Expr)) : Prop :=
  ∀ room bound rest, nestingFields fields ≤ room → fields.length ≤ bound →
    Gives False (Parser.fields (levels n room) bound)
      (line (kindsFields fields) ++ signToken .closeBrace :: rest) fields
      (signToken .closeBrace :: rest)

theorem GivenAll.nil : GivenAll n [] := by
  rintro room bound close rest - - (rfl | rfl) <;> exact .itemsNil rfl

theorem GivenAll.cons {items : List Expr} (h : Given n e) (hs : GivenAll n items) :
    GivenAll n (e :: items) := by
  intro room bound close rest hroom hbound hclose
  rw [nestingAll] at hroom
  obtain ⟨bound, rfl⟩ : ∃ b, bound = b + 1 := ⟨bound - 1, by simp at hbound; omega⟩
  have hends : EndsExpr (.sign close) ∧ (TokenKind.sign close).isSign .comma = false ∧
      (TokenKind.sign .openParen).isSign close = false := by
    rcases hclose with rfl | rfl <;> exact ⟨endsExpr_sign (by decide), rfl, rfl⟩
  have hopen : ∀ ts, (headKind (line (parens e.inner) ++ ts)).isSign close = false := fun ts => by
    rw [line_parens]
    exact hends.2.2
  rw [kindsAll, line_append]
  cases items with
  | nil => exact .itemsLast (hopen _) (h.expr (by omega) hends.1) hends.2.1
  | cons e' items =>
      exact .itemsCons (hopen _) (h.expr (by omega) (@endsExpr_sign .comma (by decide))) rfl
        (hs room bound close rest (by omega) (Nat.le_of_succ_le_succ hbound) hclose)

theorem GivenFields.nil : GivenFields n [] := fun _ _ _ _ _ => .fieldsNil rfl

theorem GivenFields.cons {key : String} {fields : List (String × Expr)} (h : Given n e)
    (hs : GivenFields n fields) : GivenFields n ((key, e) :: fields) := by
  intro room bound rest hroom hbound
  rw [nestingFields] at hroom
  obtain ⟨bound, rfl⟩ : ∃ b, bound = b + 1 := ⟨bound - 1, by simp at hbound; omega⟩
  rw [kindsFields, line_cons, line_cons, line_append]
  cases fields with
  | nil =>
      exact .fieldsLast rfl (.field rfl rfl (h.expr (by omega)
        (@endsExpr_sign .closeBrace (by decide)))) rfl
  | cons field fields =>
      exact .fieldsCons rfl (.field rfl rfl (h.expr (by omega)
        (@endsExpr_sign .comma (by decide)))) rfl
        (hs room bound rest (by omega) (Nat.le_of_succ_le_succ hbound))

/-! ### Forms of expressions -/

theorem infixOp_strength {sign : Punctuator} {strength : Nat} {op : InfixOp}
    (h : infixOp sign = some (strength, op)) : 1 ≤ strength ∧ strength ≤ 7 := by
  cases sign <;> cases h <;> decide

/-- An operator ends the operand before it. -/
theorem endsOperand_of_infixOp {sign : Punctuator} {strength : Nat} {op : InfixOp}
    (h : infixOp sign = some (strength, op)) : EndsOperand (.sign sign) := by
  cases sign <;> cases h <;> decide

namespace Given

theorem array {items : List Expr} (h : GivenAll n items) (hn : items.length ≤ n) :
    Given n (.array items) := by
  refine .of_unary (k := nestingAll items) rfl fun room hroom rest => ?_
  rw [Expr.inner, line_cons, line_append]
  exact .unaryBody rfl rfl rfl (.postfixed (.primaryArray rfl (h room n _ _ hroom hn (.inr rfl)) rfl)
    (.suffixesDone (endsExpr_sign (by decide)).operand) (endsExpr_sign (by decide)).operand)

theorem object {fields : List (String × Expr)} (h : GivenFields n fields) (hn : fields.length ≤ n) :
    Given n (.object fields) := by
  refine .of_unary (k := nestingFields fields) rfl fun room hroom rest => ?_
  rw [Expr.inner, line_braces]
  exact .unaryBody rfl rfl rfl (.postfixed (.primaryObject rfl (h room n _ hroom hn) rfl)
    (.suffixesDone (endsExpr_sign (by decide)).operand) (endsExpr_sign (by decide)).operand)

theorem member {key : String} (h : Given n e) (hkey : isKey key = true) (hn : 0 < n) :
    Given n (.member e key) := by
  obtain ⟨n, rfl⟩ : ∃ m, n = m + 1 := ⟨n - 1, by omega⟩
  have hword : memberName (wordKind key) = some key := by
    rcases Bool.or_eq_true_iff.mp hkey with hname | hkeyword
    · obtain ⟨c, cs, -, -, -, hkind⟩ := isName_iff hname
      rw [hkind]
      rfl
    · obtain ⟨word, hw⟩ := Option.isSome_iff_exists.mp hkeyword
      rw [wordKind, hw]
      have := List.find?_some hw
      exact congrArg some (beq_iff_eq.mp this)
  refine .of_suffixes (k := e.nesting) rfl rfl h (Nat.le_refl _)
    fun room hroom rest => ?_
  exact .suffixesKey rfl hword (.suffixesDone (endsExpr_sign (by decide)).operand)

theorem index (h : Given n e) (hkey : Given n e') (hn : 0 < n) : Given n (.index e e') := by
  obtain ⟨n, rfl⟩ : ∃ m, n = m + 1 := ⟨n - 1, by omega⟩
  refine .of_suffixes (k := max e.nesting (2 + e'.nesting)) rfl rfl h (by omega)
    fun room hroom rest => ?_
  rw [line_cons, line_append]
  exact .suffixesIndex rfl (hkey.expr (by omega) (@endsExpr_sign .closeBracket (by decide)))
    rfl (.suffixesDone (endsExpr_sign (by decide)).operand)

theorem call {arguments : List Expr} (h : Given n e) (ha : GivenAll n arguments) (hn : 0 < n)
    (hlen : arguments.length ≤ n) : Given n (.call e arguments) := by
  obtain ⟨n, rfl⟩ : ∃ m, n = m + 1 := ⟨n - 1, by omega⟩
  refine .of_suffixes (k := max e.nesting (nestingAll arguments)) rfl rfl h (by omega)
    fun room hroom rest => ?_
  rw [line_parens]
  exact .suffixesArguments rfl (ha room _ _ _ (by omega) hlen (.inl rfl)) rfl
    (.suffixesDone (endsExpr_sign (by decide)).operand)

theorem unary {op : UnaryOp} (h : Given n e) : Given n (.unary op e) := by
  refine .of_unary (k := 1 + e.nesting) (by rw [Expr.nesting]; omega) fun room hroom rest => ?_
  rw [Expr.inner, line_cons]
  exact .unaryOperator (by cases op <;> rfl)
    (h.operand hroom (@endsExpr_sign .closeParen (by decide)).operand)

theorem update {increment before : Bool} (h : Given n e) (ha : e.isAssignable = true) :
    Given n (.update increment before e) := by
  cases before with
  | true =>
      refine .of_unary (k := 1 + e.nesting) (by rw [Expr.nesting, if_pos rfl]; omega)
        fun room hroom rest => ?_
      rw [Expr.inner, if_pos rfl, line_cons]
      exact .prefixUpdate rfl
        (h.operand hroom (@endsExpr_sign .closeParen (by decide)).operand) ha
  | false =>
      refine .of_unary (k := e.nesting) (by rw [Expr.nesting]; rfl) fun room hroom rest => ?_
      have hsign : ∀ sign ∈ [Punctuator.dot, .openBracket, .openParen],
          (TokenKind.sign (updateSign increment)).isSign sign = false := by
        cases increment <;> decide
      have none : Gives False (Parser.suffixes (levels n room) n n e)
          (signToken (updateSign increment) :: signToken .closeParen :: rest) e _ :=
        .suffixesNone hsign
      have all := Gives.postfixUpdate (h.primary hroom) none rfl rfl ha
      rw [Expr.inner, if_neg (by decide), line_append]
      rw [line_parens] at all ⊢
      exact .unaryBody rfl rfl rfl all

/-- Two operands with an operator between them. -/
theorem infix_ {sign : Punctuator} {op : InfixOp} {left right : Expr}
    (hs : ∃ strength, infixOp sign = some (strength, op)) (hl : Given n left) (hr : Given n right) (hn : 0 < n)
    (hnesting : 2 + max left.nesting right.nesting ≤ room) :
    Gives False (levels n room).assignment
      (line (parens left.inner ++ .sign sign :: parens right.inner) ++ signToken .closeParen :: rest)
      (op.apply left right) (signToken .closeParen :: rest) := by
  obtain ⟨n, rfl⟩ : ∃ m, n = m + 1 := ⟨n - 1, by omega⟩
  obtain ⟨strength, hs⟩ := hs
  obtain ⟨count, hcount, rfl⟩ : ∃ count < 7, strength = 7 - count := by
    have := infixOp_strength hs
    exact ⟨7 - strength, by omega, by omega⟩
  have hends : EndsExpr (.sign .closeParen) := endsExpr_sign (by decide)
  have hsame : infixOfStrength (7 - count) (.sign sign) = some op := by
    simp only [infixOfStrength, hs, if_true]
  have hother : ∀ k < count, infixOfStrength (7 - k) (.sign sign) = none := fun k hk => by
    simp only [infixOfStrength, hs]
    exact if_neg (by omega)
  rw [line_append, line_cons]
  refine .assignment (by omega) fun r hr' => .assignmentBody (.conditional ?_ hends.choice) hends.assign
  have hleft : Gives False (Parser.infixed (levels (n + 1) r) (n + 1) count) _ left
      (signToken sign :: (line (parens right.inner) ++ signToken .closeParen :: rest)) :=
    hl.among (by omega) (endsOperand_of_infixOp hs) hother
  have hright : Gives False (Parser.infixed (levels (n + 1) r) (n + 1) count) _ right
      (signToken .closeParen :: rest) :=
    hr.among (by omega) hends.operand fun k _ => hends.infix_ _
  exact (Gives.infixedChain hleft (.chainStep op hsame hright (.chainDone (hends.infix_ _)))).infixed
    (fun k _ => hends.infix_ _) hcount

theorem binary {op : BinaryOp} (h : Given n e) (h' : Given n e') (hn : 0 < n) :
    Given n (.binary op e e') := fun _ hroom _ =>
  @infix_ n _ _ op.sign (.binary op) e e' (by cases op <;> exact ⟨_, rfl⟩) h h' hn hroom

theorem logical {op : LogicalOp} (h : Given n e) (h' : Given n e') (hn : 0 < n) :
    Given n (.logical op e e') := fun _ hroom _ =>
  @infix_ n _ _ op.sign (.logical op) e e' (by cases op <;> exact ⟨_, rfl⟩) h h' hn hroom

theorem conditional {test yes no : Expr} (ht : Given n test) (hy : Given n yes) (hno : Given n no) :
    Given n (.conditional test yes no) := by
  intro room hroom rest
  rw [Expr.nesting] at hroom
  have hends : EndsExpr (.sign .closeParen) := endsExpr_sign (by decide)
  rw [Expr.inner, line_append, line_cons, line_append, line_cons]
  have hquestion : EndsOperand (.sign .question) := by decide
  refine .assignment (by omega) fun r hr => .assignmentBody (.choice
    (ht.among (by omega) hquestion fun _ _ => rfl) rfl
    (hy.expr (by omega) (@endsExpr_sign .colon (by decide))) rfl
    (hno.expr (by omega) hends)) hends.assign

theorem assign {op : Option BinaryOp} (hop : assignOp (.sign (assignSign op)) = some op)
    (h : Given n e) (ha : e.isAssignable = true) (h' : Given n e') : Given n (.assign op e e') := by
  intro room hroom rest
  rw [Expr.nesting] at hroom
  have hsign : EndsOperand (.sign (assignSign op)) ∧
      (∀ strength, infixOfStrength strength (.sign (assignSign op)) = none) ∧
      (TokenKind.sign (assignSign op)).isSign .question = false := by
    cases op with
    | none => exact ⟨by decide, fun _ => rfl, rfl⟩
    | some op => cases op <;> exact ⟨by decide, fun _ => rfl, rfl⟩
  rw [Expr.inner, line_append, line_cons]
  refine .assignment (by omega) fun r hr => .assign (.conditional
    (h.among (by omega) hsign.1 fun k _ => hsign.2.1 _) hsign.2.2) hop ha
    (h'.expr (by omega) (@endsExpr_sign .closeParen (by decide)))

end Given

/-! ### Functions -/

/-- **Statements on their tokens.** -/
def GivenBody (n : Nat) (inLoop : Bool) (body : List Stmt) : Prop :=
  ∀ room bound rest, nestingBody body ≤ room → body.length ≤ bound →
    ((headKind rest).isSign .closeBrace || (headKind rest).isStop) = true →
    Gives False (statements (levels n room) inLoop bound) (line (kindsBody body) ++ rest) body rest

theorem given_parameters (names : List String) (last : Option String) {bound : Nat}
    (h : (kindsParameters names last).length ≤ bound) :
    Gives False (Parser.parameters bound)
      (line (kindsParameters names last) ++ signToken .closeParen :: rest) (names, last)
      (signToken .closeParen :: rest) := by
  induction names generalizing bound with
  | nil =>
      cases last with
      | none => exact .parametersNil rfl
      | some word =>
          obtain ⟨bound, rfl⟩ : ∃ b, bound = b + 1 := ⟨bound - 1, by simp [kindsParameters] at h; omega⟩
          exact .parametersRest rfl rfl
  | cons word names ih =>
      rw [kindsParameters, List.length_cons] at h
      obtain ⟨bound, rfl⟩ : ∃ b, bound = b + 1 := ⟨bound - 1, by omega⟩
      rw [kindsParameters]
      cases hlast : names.isEmpty && last.isNone with
      | true =>
          simp only [Bool.and_eq_true, List.isEmpty_iff, Option.isNone_iff_eq_none] at hlast
          obtain ⟨rfl, rfl⟩ := hlast
          exact .parametersOne rfl rfl
      | false =>
          rw [hlast, if_neg Bool.false_ne_true, List.length_cons] at h
          exact .parametersCons rfl rfl (ih (by omega))

section
variable {name : Option String} {parameters : List String} {last : Option String} {body : List Stmt}

theorem GivenBody.definition (h : GivenBody n false body)
    (hn : (kindsParameters parameters last).length ≤ n) (hb : body.length ≤ n)
    (hroom : nestingBody body ≤ room) :
    Gives False (Parser.definitionRest (levels n room) n name)
      (line (parens (kindsParameters parameters last) ++ braces (kindsBody body)) ++ rest)
      ⟨name, parameters, last, body⟩ rest := by
  rw [line_append, line_parens, line_braces]
  exact .definitionRest rfl (given_parameters parameters last hn) rfl rfl (h room n _ hroom hb rfl) rfl

theorem Given.function (h : GivenBody n false body)
    (hn : (kindsParameters parameters last).length ≤ n) (hb : body.length ≤ n) :
    Given n (.function ⟨name, parameters, last, body⟩) := by
  refine .of_unary (k := nestingBody body) rfl fun room hroom rest => ?_
  have hends : EndsOperand (.sign .closeParen) := by decide
  rw [Expr.inner, line_cons, Definition.kinds, line_append]
  have all := @GivenBody.definition n room (signToken .closeParen :: rest) name _ _ _ h hn hb hroom
  cases name with
  | none =>
      rw [line_append, line_parens] at all
      rw [line_append, line_parens]
      exact .unaryBody rfl rfl rfl (.postfixed (.primaryFunction rfl rfl all) (.suffixesDone hends) hends)
  | some word =>
      exact .unaryBody rfl rfl rfl (.postfixed (.primaryNamed rfl rfl all) (.suffixesDone hends) hends)

end

/-! ### Statements -/

/-- **A statement on its tokens.**  An `else` may come after it only if it would not take it. -/
def GivenStmt (n : Nat) (inLoop : Bool) (s : Stmt) : Prop :=
  ∀ room rest, s.nesting ≤ room →
    (s.endsOpen = true → (headKind rest).isKeyword .else = false) →
    Gives False ((levels n room).statement inLoop) (line s.kinds ++ rest) s rest

/-- No statement begins like what may come after one. -/
theorem headKind_stmt (s : Stmt) (rest : List Token) :
    (headKind (line s.kinds ++ rest)).isKeyword .else = false ∧
      ((headKind (line s.kinds ++ rest)).isSign .closeBrace ||
        (headKind (line s.kinds ++ rest)).isStop) = false := by
  cases s with
  | declare kind bindings => cases kind <;> exact ⟨rfl, rfl⟩
  | _ => exact ⟨rfl, rfl⟩

theorem GivenBody.nil {inLoop : Bool} : GivenBody n inLoop [] := fun _ _ _ _ _ h => .statementsNil h

theorem GivenBody.cons {inLoop : Bool} {s : Stmt} {body : List Stmt} (h : GivenStmt n inLoop s)
    (hs : GivenBody n inLoop body) : GivenBody n inLoop (s :: body) := by
  intro room bound rest hroom hbound hrest
  rw [nestingBody] at hroom
  obtain ⟨bound, rfl⟩ : ∃ b, bound = b + 1 := ⟨bound - 1, by simp at hbound; omega⟩
  have helse : (headKind (line (kindsBody body) ++ rest)).isKeyword .else = false := by
    cases body with
    | nil =>
        rw [kindsBody, line_nil]
        cases hk : headKind rest with
        | keyword word => rw [hk] at hrest; cases hrest
        | _ => rfl
    | cons s' body =>
        rw [kindsBody, line_append]
        exact (headKind_stmt s' _).1
  rw [kindsBody, line_append]
  exact .statementsCons (headKind_stmt s _).2 (h room _ (by omega) fun _ => helse)
    (hs room bound rest (by omega) (Nat.le_of_succ_le_succ hbound) hrest)

/-! ### Declarations -/

/-- **An expression that may be absent.** -/
def GivenOption (n : Nat) (value : Option Expr) : Prop :=
  ∀ e, value = some e → Given n e

/-- **The names of a declaration on their tokens.** -/
def GivenBindings (n : Nat) (kind : DeclKind) (bindings : List (String × Option Expr)) : Prop :=
  ∀ room bound rest, nestingBindings bindings ≤ room → bindings.length ≤ bound → bindings ≠ [] →
    Gives False (Parser.bindings (levels n room) kind bound)
      (line (kindsBindings bindings) ++ signToken .semicolon :: rest) bindings
      (signToken .semicolon :: rest)

theorem GivenOption.none : GivenOption n none := fun _ h => by cases h

theorem GivenOption.some (h : Given n e) : GivenOption n (some e) := fun _ he => by cases he; exact h

theorem GivenOption.binding {kind : DeclKind} {name : String} {value : Option Expr} {t : Token}
    (h : GivenOption n value) (hconst : kind = .const → value.isSome = true)
    (hroom : nestingOption value ≤ room) (ht : EndsExpr t.kind) :
    Gives False (Parser.binding (levels n room) kind)
      (⟨.name name, .start, false⟩ :: (line (kindsValue value) ++ t :: rest)) (name, value)
      (t :: rest) := by
  cases value with
  | none =>
      refine .bindingBare rfl ?_ fun hk => by cases hconst hk
      cases hs : t.kind.isSign .assign with
      | false => exact hs
      | true =>
          have hassign := ht.assign
          cases hk : t.kind with
          | sign sign =>
              rw [hk] at hs hassign
              obtain rfl : sign = .assign := beq_iff_eq.mp hs
              cases hassign
          | _ => rw [hk] at hs; cases hs
  | some e =>
      rw [nestingOption] at hroom
      exact .binding rfl rfl ((h e rfl).expr hroom ht)

theorem GivenBindings.cons {kind : DeclKind} {name : String} {value : Option Expr}
    {bindings : List (String × Option Expr)} (h : GivenOption n value)
    (hconst : kind = .const → value.isSome = true) (hs : GivenBindings n kind bindings) :
    GivenBindings n kind ((name, value) :: bindings) := by
  intro room bound rest hroom hbound _
  rw [nestingBindings] at hroom
  obtain ⟨bound, rfl⟩ : ∃ b, bound = b + 1 := ⟨bound - 1, by simp at hbound; omega⟩
  rw [kindsBindings, line_cons, line_append]
  cases bindings with
  | nil =>
      exact .bindingsLast (h.binding hconst (by omega) (@endsExpr_sign .semicolon (by decide))) rfl
  | cons b bindings =>
      exact .bindingsCons (h.binding hconst (by omega) (@endsExpr_sign .comma (by decide))) rfl
        (hs room bound rest (by omega) (Nat.le_of_succ_le_succ hbound) (List.cons_ne_nil _ _))

/-! ### Loop headers -/

/-- **The first part of a loop header on its tokens.**  It is not taken for a loop over items. -/
def GivenInit (n : Nat) (init : Option Stmt) : Prop :=
  ∀ room rest, nestingInit init ≤ room → ∃ t ts,
    line (kindsInit init) ++ signToken .semicolon :: rest = t :: ts ∧
    Ending.loopName? (if (declKind t.kind).isSome then ts else t :: ts) = none ∧
    Gives False (loopInit (levels n room) n) (t :: ts) init (signToken .semicolon :: rest)

theorem loopName?_none {t : Token} (ht : ∀ word, t.kind ≠ .name word) (ts : List Token) :
    Ending.loopName? (t :: ts) = none := by
  cases h : Ending.loopName? (t :: ts) with
  | none => rfl
  | some found =>
      obtain ⟨t', u, he, hname, -⟩ := Ending.of_loopName? h
      obtain ⟨rfl, -⟩ := List.cons.inj he
      exact absurd hname (ht _)

theorem GivenInit.none : GivenInit n none := fun room rest _ =>
  ⟨signToken .semicolon, rest, rfl, loopName?_none (fun _ h => by cases h) rest, .noInit rfl⟩

theorem GivenInit.expr (h : Given n e) : GivenInit n (some (.expr e)) := fun room rest hroom =>
  ⟨signToken .openParen, line e.inner ++ signToken .closeParen :: signToken .semicolon :: rest,
    by rw [kindsInit, line_parens], loopName?_none (fun _ h => by cases h) _, by
      have all : Gives False (levels n room).assignment
          (line (parens e.inner) ++ signToken .semicolon :: rest) e (signToken .semicolon :: rest) :=
        h.expr hroom (@endsExpr_sign .semicolon (by decide))
      rw [line_parens] at all
      exact .exprInit rfl rfl all⟩

theorem GivenInit.declare {kind : DeclKind} {bindings : List (String × Option Expr)}
    (h : GivenBindings n kind bindings) (hne : bindings ≠ []) (hn : bindings.length ≤ n) :
    GivenInit n (some (.declare kind bindings)) := fun room rest hroom => by
  have hkind : declKind (.keyword kind.keyword) = some kind := by cases kind <;> rfl
  refine ⟨_, _, by rw [kindsInit, line_cons], ?_, .declareInit hkind (h room n rest hroom hn hne)⟩
  simp only [hkind, Option.isSome_some, if_true]
  obtain ⟨⟨name, value⟩, bindings, rfl⟩ := List.exists_cons_of_ne_nil hne
  cases value <;> cases bindings <;> rfl

theorem GivenOption.unless {value : Option Expr} {sign : Punctuator} (h : GivenOption n value)
    (hroom : nestingOption value ≤ room) (hs : sign = .semicolon ∨ sign = .closeParen) :
    Gives False (unlessSign (levels n room) sign) (line (kindsOption value) ++ signToken sign :: rest)
      value (signToken sign :: rest) := by
  cases value with
  | none =>
      refine .absent ?_
      rcases hs with rfl | rfl <;> rfl
  | some e =>
      rw [nestingOption] at hroom
      rw [kindsOption]
      refine .present ?_ ((h e rfl).expr hroom ?_)
      · rw [line_parens]
        rcases hs with rfl | rfl <;> rfl
      · rcases hs with rfl | rfl <;> exact endsExpr_sign (by decide)

/-! ### Forms of statements -/

namespace GivenStmt

variable {inLoop : Bool} {s : Stmt}

theorem expr (h : Given n e) : GivenStmt n inLoop (.expr e) := by
  intro room rest hroom _
  rw [Stmt.nesting] at hroom
  have all : ∀ r, room = r + 1 → Gives False (levels n r).assignment
      (line (parens e.inner) ++ signToken .semicolon :: rest) e (signToken .semicolon :: rest) :=
    fun r hr => h.expr (by omega) (@endsExpr_sign .semicolon (by decide))
  rw [Stmt.kinds, line_append]
  refine .statement (by omega) fun r hr => .expression ?_ (all r hr) (.semicolon rfl)
  rw [line_parens]
  exact ⟨by decide, by decide⟩

theorem declare {kind : DeclKind} {bindings : List (String × Option Expr)}
    (h : GivenBindings n kind bindings) (hne : bindings ≠ []) (hn : bindings.length ≤ n) :
    GivenStmt n inLoop (.declare kind bindings) := by
  intro room rest hroom _
  rw [Stmt.nesting] at hroom
  rw [Stmt.kinds, line_cons, line_append]
  exact .statement (by omega) fun r hr => .declareStatement rfl (by cases kind <;> rfl)
    (h r n rest (by omega) hn hne) (.semicolon rfl)

theorem function {word : String} {parameters : List String} {last : Option String}
    {body : List Stmt} (h : GivenBody n false body)
    (hn : (kindsParameters parameters last).length ≤ n) (hb : body.length ≤ n) :
    GivenStmt n inLoop (.function ⟨some word, parameters, last, body⟩) := by
  intro room rest hroom _
  rw [Stmt.nesting, Definition.nesting] at hroom
  exact .statement (by omega) fun r hr => .functionStatement rfl rfl
    (h.definition hn hb (by omega))

theorem block {body : List Stmt} (h : GivenBody n inLoop body) (hb : body.length ≤ n) :
    GivenStmt n inLoop (.block body) := by
  intro room rest hroom _
  rw [Stmt.nesting] at hroom
  rw [Stmt.kinds, line_braces]
  exact .statement (by omega) fun r hr => .block rfl (h r n _ (by omega) hb rfl) rfl

theorem branch {no : Option Stmt} (h : Given n e) (hyes : GivenStmt n inLoop s)
    (hno : ∀ s', no = some s' → GivenStmt n inLoop s')
    (hopen : no.isSome = true → s.endsOpen = false) :
    GivenStmt n inLoop (.branch e s no) := by
  intro room rest hroom hrest
  rw [Stmt.nesting] at hroom
  rw [Stmt.kinds, line_cons, line_append, line_parens, line_append]
  refine .statement (by omega) fun r hr => ?_
  have htest : Gives False (levels n r).assignment (line (parens e.inner) ++ signToken .closeParen ::
      (line s.kinds ++ (line (kindsElse no) ++ rest))) e _ :=
    h.expr (by omega) (@endsExpr_sign .closeParen (by decide))
  cases no with
  | none =>
      rw [kindsElse, line_nil] at htest ⊢
      exact .branch rfl rfl htest rfl (hyes r _ (by omega) fun _ => hrest rfl) (hrest rfl)
  | some s' =>
      rw [nestingStmt] at hroom
      rw [kindsElse, line_cons] at htest ⊢
      refine .branchElse rfl rfl htest rfl (hyes r _ (by omega) fun ho => ?_) rfl
        (hno s' rfl r rest (by omega) hrest)
      rw [hopen rfl] at ho
      cases ho

theorem loop {init : Option Stmt} {test update : Option Expr} (hinit : GivenInit n init)
    (htest : GivenOption n test) (hupdate : GivenOption n update) (hbody : GivenStmt n true s) :
    GivenStmt n inLoop (.loop init test update s) := by
  intro room rest hroom hrest
  rw [Stmt.nesting] at hroom
  rw [Stmt.kinds, line_cons, line_append, line_parens, line_append, line_cons, line_append, line_cons]
  refine .statement (by omega) fun r hr => ?_
  obtain ⟨t, ts, hts, hname, hfirst⟩ := hinit r (line (kindsOption test) ++ signToken .semicolon ::
    (line (kindsOption update) ++ signToken .closeParen :: (line s.kinds ++ rest))) (by omega)
  exact (congrArg (fun us => Gives False (statementBody (levels n r) n inLoop)
    (⟨.keyword .for, .start, false⟩ :: signToken .openParen :: us) (.loop init test update s) rest)
    hts).mpr (.loop rfl rfl hname hfirst rfl (htest.unless (by omega) (.inl rfl)) rfl
      (hupdate.unless (by omega) (.inr rfl)) rfl (hbody r rest (by omega) hrest))

/-- Loops over items and over keys. -/
theorem forEach {binding : LoopBinding} {kind : TokenKind} (word : LoopWord)
    (hword : loopWord kind = some word) (h : Given n e) (hbody : GivenStmt n true s)
    (hroom : 1 + max (2 + e.nesting) s.nesting ≤ room)
    (hrest : s.endsOpen = true → (headKind rest).isKeyword .else = false) :
    Gives False ((levels n room).statement inLoop)
      (line (.keyword .for :: (parens (binding.kinds ++ kind :: parens e.inner) ++ s.kinds)) ++ rest)
      (word.stmt binding e s) rest := by
  obtain ⟨declared, name⟩ := binding
  rw [line_cons, line_append, line_parens, LoopBinding.kinds]
  refine .statement (by omega) fun r hr => ?_
  have hsubject : Gives False (levels n r).assignment (line (parens e.inner) ++
      signToken .closeParen :: (line s.kinds ++ rest)) e _ :=
    h.expr (by omega) (@endsExpr_sign .closeParen (by decide))
  have hbody := hbody r rest (by omega) hrest
  cases declared with
  | none =>
      rw [line_append, line_append, line_cons]
      exact .forEach word rfl rfl rfl (Ending.loopName?_eq_some rfl hword) hsubject rfl hbody
  | some declKind =>
      rw [line_append, line_append, line_cons]
      exact .forEach word rfl rfl (by cases declKind <;> rfl) (Ending.loopName?_eq_some rfl hword)
        hsubject rfl hbody

theorem forIn {binding : LoopBinding} (h : Given n e) (hbody : GivenStmt n true s) :
    GivenStmt n inLoop (.forIn binding e s) := fun _ _ hroom hrest =>
  forEach .in rfl h hbody hroom hrest

theorem forOf {binding : LoopBinding} (h : Given n e) (hbody : GivenStmt n true s) :
    GivenStmt n inLoop (.forOf binding e s) := fun _ _ hroom hrest =>
  forEach .of rfl h hbody hroom hrest

theorem whileLoop (h : Given n e) (hbody : GivenStmt n true s) :
    GivenStmt n inLoop (.whileLoop e s) := by
  intro room rest hroom hrest
  rw [Stmt.nesting] at hroom
  rw [Stmt.kinds, line_cons, line_append, line_parens]
  exact .statement (by omega) fun r hr => .whileLoop rfl rfl
    (h.expr (by omega) (@endsExpr_sign .closeParen (by decide))) rfl (hbody r rest (by omega) hrest)

theorem «break» : GivenStmt n true .break := fun _ _ hroom _ =>
  .statement (by rw [Stmt.nesting] at hroom; omega) fun _ _ => .breakStatement rfl rfl

theorem «continue» : GivenStmt n true .continue := fun _ _ hroom _ =>
  .statement (by rw [Stmt.nesting] at hroom; omega) fun _ _ => .continueStatement rfl rfl

theorem «return» {value : Option Expr} (h : GivenOption n value) :
    GivenStmt n inLoop (.return value) := by
  intro room rest hroom _
  rw [Stmt.nesting] at hroom
  rw [Stmt.kinds, line_cons, line_append]
  refine .statement (by omega) fun r hr => ?_
  cases value with
  | none => exact .returnNothing rfl rfl
  | some e =>
      rw [nestingOption] at hroom
      have all : Gives False (levels n r).assignment
          (line (parens e.inner) ++ signToken .semicolon :: rest) e (signToken .semicolon :: rest) :=
        (h e rfl).expr (by omega) (@endsExpr_sign .semicolon (by decide))
      rw [line_parens] at all
      rw [kindsOption, line_parens]
      exact .returnValue rfl rfl rfl all (.semicolon rfl)

theorem empty : GivenStmt n inLoop .empty := fun _ _ hroom _ =>
  .statement (by rw [Stmt.nesting] at hroom; omega) fun _ _ => .emptyStatement rfl

end GivenStmt

/-! ### Trees -/

mutual

/-- **Every expression is given by its tokens.** -/
theorem given : ∀ e : Expr, e.Formed → e.Writable → e.inner.length ≤ n → Given n e
  | .number _, _, _, _ => .atom rfl rfl rfl
  | .string _, _, _, _ => .atom rfl rfl rfl
  | .bool value, _, _, _ => .atom rfl (by cases value <;> rfl) rfl
  | .null, _, _, _ => .atom rfl rfl rfl
  | .name _, _, _, _ => .atom rfl rfl rfl
  | .array items, hf, hw, hn => by
      simp only [Expr.inner, List.length_cons, List.length_append] at hn
      have := length_kindsAll items
      exact .array (givenAll items hf hw (by omega)) (by omega)
  | .object fields, hf, hw, hn => by
      simp only [Expr.inner, length_braces] at hn
      have := length_kindsFields fields
      exact .object (givenFields fields hf hw (by omega)) (by omega)
  | .function ⟨name, parameters, last, body⟩, hf, hw, hn => by
      simp only [Expr.inner, Definition.kinds, List.length_cons, List.length_append, length_parens,
        length_braces] at hn
      have := length_kindsBody body
      exact .function (givenBody body (by simpa using hf.2) hw (by omega)) (by omega) (by omega)
  | .member object key, hf, hw, hn => by
      simp only [Expr.inner, List.length_append, length_parens] at hn
      exact .member (given object hf hw.1 (by omega)) hw.2 (by omega)
  | .index object key, hf, hw, hn => by
      simp only [Expr.inner, List.length_append, List.length_cons, length_parens] at hn
      exact .index (given object hf.1 hw.1 (by omega)) (given key hf.2 hw.2 (by omega)) (by omega)
  | .call callee arguments, hf, hw, hn => by
      simp only [Expr.inner, List.length_append, length_parens] at hn
      have := length_kindsAll arguments
      exact .call (given callee hf.1 hw.1 (by omega)) (givenAll arguments hf.2 hw.2 (by omega))
        (by omega) (by omega)
  | .unary op operand, hf, hw, hn => by
      simp only [Expr.inner, List.length_cons, length_parens] at hn
      exact .unary (given operand hf hw (by omega))
  | .update increment before target, hf, hw, hn => by
      have : target.inner.length ≤ n := by
        cases before <;> simp [Expr.inner, length_parens] at hn <;> omega
      exact .update (given target hf.2 hw this) hf.1
  | .binary op left right, hf, hw, hn => by
      simp only [Expr.inner, List.length_append, List.length_cons, length_parens] at hn
      exact .binary (given left hf.1 hw.1 (by omega)) (given right hf.2 hw.2 (by omega)) (by omega)
  | .logical op left right, hf, hw, hn => by
      simp only [Expr.inner, List.length_append, List.length_cons, length_parens] at hn
      exact .logical (given left hf.1 hw.1 (by omega)) (given right hf.2 hw.2 (by omega)) (by omega)
  | .conditional test yes no, hf, hw, hn => by
      simp only [Expr.inner, List.length_append, List.length_cons, length_parens] at hn
      exact .conditional (given test hf.1 hw.1 (by omega)) (given yes hf.2.1 hw.2.1 (by omega))
        (given no hf.2.2 hw.2.2 (by omega))
  | .assign op target value, hf, hw, hn => by
      simp only [Expr.inner, List.length_append, List.length_cons, length_parens] at hn
      exact .assign hw.1 (given target hf.2.1 hw.2.1 (by omega)) hf.1
        (given value hf.2.2 hw.2.2 (by omega))

theorem givenAll : ∀ items : List Expr, FormedAll items → WritableAll items →
    (kindsAll items).length ≤ n → GivenAll n items
  | [], _, _, _ => .nil
  | e :: rest, hf, hw, hn => by
      have := length_kindsAll_cons e rest
      exact .cons (given e hf.1 hw.1 (by omega)) (givenAll rest hf.2 hw.2 (by omega))

theorem givenFields : ∀ fields : List (String × Expr), FormedFields fields →
    WritableFields fields → (kindsFields fields).length ≤ n → GivenFields n fields
  | [], _, _, _ => .nil
  | (key, value) :: rest, hf, hw, hn => by
      have := length_kindsFields_cons key value rest
      exact .cons (given value hf.1 hw.1 (by omega)) (givenFields rest hf.2 hw.2 (by omega))

theorem givenOption : ∀ value : Option Expr, FormedOption value → WritableOption value →
    (kindsOption value).length ≤ n → GivenOption n value
  | none, _, _, _ => .none
  | some e, hf, hw, hn => by
      rw [kindsOption, length_parens] at hn
      exact .some (given e hf hw (by omega))

theorem givenBindings {kind : DeclKind} : ∀ bindings : List (String × Option Expr),
    FormedBindings kind bindings → WritableBindings bindings → (kindsBindings bindings).length ≤ n →
    GivenBindings n kind bindings
  | [], _, _, _ => fun _ _ _ _ _ h => absurd rfl h
  | (name, none) :: rest, hf, hw, hn => by
      have := length_kindsBindings_cons name none rest
      exact .cons .none hf.2.1 (givenBindings rest hf.2.2.2 hw.2 (by omega))
  | (name, some e) :: rest, hf, hw, hn => by
      have := length_kindsBindings_cons name (some e) rest
      rw [kindsValue, List.length_cons, length_parens] at this
      exact .cons (.some (given e hf.2.2.1 hw.1 (by omega))) hf.2.1
        (givenBindings rest hf.2.2.2 hw.2 (by omega))

/-- **Every statement is given by its tokens.** -/
theorem givenStmt {inLoop : Bool} : ∀ s : Stmt, s.Formed (inLoop = true) → s.Writable →
    s.kinds.length ≤ n → GivenStmt n inLoop s
  | .expr e, hf, hw, hn => by
      simp only [Stmt.kinds, List.length_append, length_parens] at hn
      exact .expr (given e hf hw (by omega))
  | .declare kind bindings, hf, hw, hn => by
      simp only [Stmt.kinds, List.length_cons, List.length_append] at hn
      have := length_kindsBindings bindings
      exact .declare (givenBindings bindings hf hw.2 (by omega)) hw.1 (by omega)
  | .function ⟨none, _, _, _⟩, hf, _, _ => by cases hf.1
  | .function ⟨some word, parameters, last, body⟩, hf, hw, hn => by
      simp only [Stmt.kinds, Definition.kinds, List.length_cons, List.length_append, length_parens,
        length_braces] at hn
      have := length_kindsBody body
      exact .function (givenBody body (by simpa using hf.2.2) hw (by omega)) (by omega) (by omega)
  | .block body, hf, hw, hn => by
      simp only [Stmt.kinds, length_braces] at hn
      have := length_kindsBody body
      exact .block (givenBody body hf hw (by omega)) (by omega)
  | .branch test yes none, hf, hw, hn => by
      simp only [Stmt.kinds, List.length_cons, List.length_append, length_parens] at hn
      exact .branch (given test hf.1 hw.1 (by omega)) (givenStmt yes hf.2.1 hw.2.1 (by omega))
        (fun _ h => by cases h) hw.2.2.1
  | .branch test yes (some no), hf, hw, hn => by
      simp only [Stmt.kinds, kindsElse, List.length_cons, List.length_append, length_parens] at hn
      have hno := givenStmt no hf.2.2 hw.2.2.2 (by omega)
      exact .branch (given test hf.1 hw.1 (by omega)) (givenStmt yes hf.2.1 hw.2.1 (by omega))
        (fun _ h => by cases h; exact hno) hw.2.2.1
  | .loop init test update body, hf, hw, hn => by
      simp only [Stmt.kinds, List.length_cons, List.length_append, length_parens] at hn
      exact .loop (givenInit init hf.1 hf.2.1 hw.1 (by omega))
        (givenOption test hf.2.2.1 hw.2.1 (by omega)) (givenOption update hf.2.2.2.1 hw.2.2.1 (by omega))
        (givenStmt body (by simpa using hf.2.2.2.2) hw.2.2.2 (by omega))
  | .forIn binding subject body, hf, hw, hn => by
      simp only [Stmt.kinds, List.length_cons, List.length_append, length_parens] at hn
      exact .forIn (given subject hf.2.1 hw.1 (by omega))
        (givenStmt body (by simpa using hf.2.2) hw.2 (by omega))
  | .forOf binding subject body, hf, hw, hn => by
      simp only [Stmt.kinds, List.length_cons, List.length_append, length_parens] at hn
      exact .forOf (given subject hf.2.1 hw.1 (by omega))
        (givenStmt body (by simpa using hf.2.2) hw.2 (by omega))
  | .whileLoop test body, hf, hw, hn => by
      simp only [Stmt.kinds, List.length_cons, List.length_append, length_parens] at hn
      exact .whileLoop (given test hf.1 hw.1 (by omega))
        (givenStmt body (by simpa using hf.2) hw.2 (by omega))
  | .break, hf, _, _ => by
      obtain rfl : inLoop = true := hf
      exact .break
  | .continue, hf, _, _ => by
      obtain rfl : inLoop = true := hf
      exact .continue
  | .return value, hf, hw, hn => by
      simp only [Stmt.kinds, List.length_cons, List.length_append] at hn
      exact .return (givenOption value hf hw (by omega))
  | .empty, _, _, _ => .empty

theorem givenInit : ∀ init : Option Stmt, (∀ s, init = some s → s.isHeader) →
    FormedStmt True init → WritableStmt init → (kindsInit init).length ≤ n → GivenInit n init
  | none, _, _, _, _ => .none
  | some s, h, hf, hw, hn => by
      cases s with
      | expr e =>
          rw [kindsInit, length_parens] at hn
          exact .expr (given e hf hw (by omega))
      | declare kind bindings =>
          rw [kindsInit, List.length_cons] at hn
          have := length_kindsBindings bindings
          exact .declare (givenBindings bindings hf hw.2 (by omega)) hw.1 (by omega)
      | _ => exact (h _ rfl).elim

theorem givenBody {inLoop : Bool} : ∀ body : List Stmt, FormedBody (inLoop = true) body →
    WritableBody body → (kindsBody body).length ≤ n → GivenBody n inLoop body
  | [], _, _, _ => .nil
  | s :: rest, hf, hw, hn => by
      rw [kindsBody, List.length_append] at hn
      exact .cons (givenStmt s hf.1 hw.1 (by omega)) (givenBody rest hf.2 hw.2 (by omega))

end

end

/-! ### Texts -/

/-- What a text of written tokens reads as, beside the same tokens on one line. -/
theorem tokens_spelled {kinds : List TokenKind} (h : AllWritable kinds) :
    ∃ (us : List Token) (C : Ending), tokens (String.ofList (spelled kinds)) = .ok (us ++ [C.head]) ∧
      us.length = kinds.length ∧ C.head.kind = .stop ∧ C.tail = [] ∧ ¬ C.deep ∧
      C.Beside (line kinds ++ [stopToken]) (us ++ C.head :: C.tail) := by
  have reads := reads_spelled h
  obtain ⟨ts, htokens, hmarks⟩ :=
    @tokens_of_reads (String.ofList (spelled kinds)) _ _ _ (by rwa [String.toList_ofList]) over_nil
  obtain ⟨us, last, rfl, hus, hlast⟩ := List.map_eq_append_iff.mp hmarks
  obtain ⟨t, rfl, ht⟩ := List.map_eq_singleton_iff.mp hlast
  have hkind : t.kind = .stop := congrArg Prod.fst ht
  have hline : (line kinds ++ [stopToken]).map Token.mark =
      kinds.map (fun kind => (kind, false)) ++ [(.stop, false)] := by
    rw [line, List.map_append, List.map_map]
    rfl
  refine ⟨us, ⟨t, [], by rw [hkind]; trivial, False⟩, htokens, ?_, hkind, rfl, id,
    Ending.beside_of_marks _ hline hus reads.sound⟩
  rw [← List.length_map Token.mark, hus, List.length_map]

theorem length_line (kinds : List TokenKind) : (line kinds).length = kinds.length :=
  List.length_map _

/-- A body that is read from tokens on one line is read from their text. -/
theorem parseBody_spelled {kinds : List TokenKind} {body : List Stmt} (hw : AllWritable kinds)
    (whole : Whole (line kinds ++ [stopToken]) body) :
    parseBody (String.ofList (spelled kinds)) = .ok body := by
  obtain ⟨us, C, htokens, hlen, hstop, htail, hdeep, hbeside⟩ := tokens_spelled hw
  have hends : C.EndsBlock := Ending.endsBlock_of_stop hstop
  have hbound : (line kinds ++ [stopToken]).length ≤ (us ++ [C.head]).length := by
    simp [length_line, hlen]
  have here := whole.elsewhere hbeside hends hdeep hbound hbound
  rw [htail] at here
  exact parseBody_eq_ok.mpr ⟨_, htokens, C.head, hstop, here⟩

theorem parseBody_bodyText {body : List Stmt} (hf : FormedBody False body) (hw : WritableBody body)
    (hn : nestingBody body ≤ maxNesting) : parseBody (bodyText body) = .ok body := by
  have hle := length_kindsBody body
  refine parseBody_spelled (allWritable_body body hf hw) ⟨stopToken, rfl, ?_⟩
  rw [List.length_append, length_line]
  exact (givenBody body (by simpa using hf) hw (Nat.le_add_right _ _) _ _ _ hn (by omega) rfl).run

/-- A function on its tokens. -/
theorem given_definition {n : Nat} (d : Definition) (hf : d.Formed) (hw : d.Writable)
    (hn : d.nesting ≤ maxNesting) (hlen : d.kinds.length ≤ n) (rest : List Token) :
    Gives False (definitionOnly n) (line (.keyword .function :: d.kinds) ++ rest) d rest := by
  obtain ⟨name, parameters, last, body⟩ := d
  simp only [Definition.kinds, List.length_append, length_parens, length_braces] at hlen
  have hle := length_kindsBody body
  have all := @GivenBody.definition n maxNesting rest name parameters last body
    (givenBody body (by simpa using hf.2) hw (by omega)) (by omega) (by omega) hn
  rw [line_cons, Definition.kinds, line_append]
  refine .keyword rfl ?_
  cases name with
  | none =>
      rw [line_append, line_parens] at all
      rw [line_append, line_parens]
      exact .noName (fun _ h => by cases h) all
  | some word => exact .name rfl all

theorem parseDefinition_text {d : Definition} (hf : d.Formed) (hw : d.Writable)
    (hn : d.nesting ≤ maxNesting) : parseDefinition d.text = .ok d := by
  obtain ⟨us, C, htokens, hlen, hstop, htail, hdeep, hbeside⟩ :=
    @tokens_spelled (.keyword .function :: d.kinds)
      (allWritable_cons.mpr ⟨trivial, allWritable_kinds d hf hw⟩)
  have hbound : (us ++ [C.head]).length =
      (line (.keyword .function :: d.kinds) ++ [stopToken]).length := by
    simp [length_line, hlen]
  have there := (given_definition d hf hw hn (n := (us ++ [C.head]).length)
    (by simp [hlen]; omega) [stopToken]).run
  have reaches := (definitionOnly_follows C _).right _ _ _ _ hbeside (Nat.le_of_eq hbound.symm) trivial
    there (.inl trivial)
  have here := reaches.gives.resolve_left fun h => hdeep h.1
  rw [htail] at here
  exact parseDefinition_of_definitionOnly htokens hstop here

end Parser

/-- **The parser inverts the canonical text.** -/
theorem parse_canonical :
    (∀ body : List Stmt, FormedBody False body → WritableBody body →
      nestingBody body ≤ maxNesting → parseBody (bodyText body) = .ok body) ∧
    ∀ d : Definition, d.Formed → d.Writable → d.nesting ≤ maxNesting →
      parseDefinition d.text = .ok d :=
  ⟨fun _ => Parser.parseBody_bodyText, fun _ => Parser.parseDefinition_text⟩

/-- The statements
`let x = 3; while (x) if (x < 1) {break;} else x -= 1; return list.in('it\'s', x);`. -/
def countdown : List Stmt :=
  [.declare .let [("x", some (.number 3))],
    .whileLoop (.name "x") (.branch (.binary .less (.name "x") (.number 1)) (.block [.break])
      (some (.expr (.assign (some .sub) (.name "x") (.number 1))))),
    .return (some (.call (.member (.name "list") "in") [.string "it's", .name "x"]))]

example : bodyText countdown =
    "let x = ( 3 ) ; while ( ( x ) ) if ( ( ( x ) < ( 1 ) ) ) \x7b break ; \x7d else ( ( x ) -= ( 1 ) ) ; " ++
      "return ( ( ( list ) . in ) ( ( 'it\\'s' ) , ( x ) ) ) ;" := by
  decide +kernel

theorem countdown_formed : FormedBody False countdown := by
  simp only [countdown, FormedBody, Stmt.Formed, FormedBindings, FormedOption, FormedStmt, Expr.Formed,
    FormedAll]
  decide

theorem countdown_writable : WritableBody countdown := by
  simp only [countdown, WritableBody, Stmt.Writable, WritableBindings, WritableOption, WritableStmt,
    Expr.Writable, WritableAll]
  decide

theorem parse_canonical_countdown : FormedBody False countdown ∧ WritableBody countdown ∧
    nestingBody countdown ≤ maxNesting ∧ parseBody (bodyText countdown) = .ok countdown :=
  have hn : nestingBody countdown ≤ maxNesting := by decide
  ⟨countdown_formed, countdown_writable, hn,
    parse_canonical.1 countdown countdown_formed countdown_writable hn⟩

end Stencil.Script
