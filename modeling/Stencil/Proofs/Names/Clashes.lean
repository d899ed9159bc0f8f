import Stencil.Script.Names

/-!
# Names — clashing declarations

`let` and `const` bind a name that must not be bound yet where they stand.  Read off the tree, there
are two ways in which they can find it bound:

* a declaration stands without braces as the branch of a choice or the body of a loop.  It has no
  block of its own, and binds in the scope around, whose names were counted without it: `unbraced`;
* one block, one loop header or one function binds the name more than once: `repeated`.

`clashes` lists both, in nested functions too.
-/

namespace Stencil.Script

/-- A declaration that can find its name bound. -/
inductive Clash where
  | unbraced (name : String)
  | repeated (name : String)
  deriving DecidableEq, Repr

/-- The name that is declared. -/
def Clash.name : Clash → String
  | .unbraced name => name
  | .repeated name => name

/-- The names that stand in a list more than once. -/
def repeats (names : List String) : List String :=
  names.filter fun name => 1 < names.count name

/-- The names that a function declares with `let` or `const` in its body and binds in another way
too. -/
def Definition.repeats (d : Definition) : List String :=
  Script.repeats (lexicalNames d.body) ++
    (lexicalNames d.body).filter (d.parameters ++ d.rest.toList ++ hoistedNames d.body).contains

/-- The declaration that a statement without braces is. -/
def Stmt.asBranch (s : Stmt) : List Clash :=
  s.lexical.map .unbraced

mutual

/-- The clashes in an expression. -/
def Expr.clashes : Expr → List Clash
  | .number _ => []
  | .string _ => []
  | .bool _ => []
  | .null => []
  | .name _ => []
  | .array items => clashesAll items
  | .object fields => clashesFields fields
  | .function definition => definition.clashes
  | .member object _ => object.clashes
  | .index object key => object.clashes ++ key.clashes
  | .call callee arguments => callee.clashes ++ clashesAll arguments
  | .unary _ operand => operand.clashes
  | .update _ _ target => target.clashes
  | .binary _ left right => left.clashes ++ right.clashes
  | .logical _ left right => left.clashes ++ right.clashes
  | .conditional test yes no => test.clashes ++ (yes.clashes ++ no.clashes)
  | .assign _ target value => target.clashes ++ value.clashes

/-- The clashes in several expressions. -/
def clashesAll : List Expr → List Clash
  | [] => []
  | e :: rest => e.clashes ++ clashesAll rest

/-- The clashes in the values of fields. -/
def clashesFields : List (String × Expr) → List Clash
  | [] => []
  | (_, value) :: rest => value.clashes ++ clashesFields rest

/-- The clashes in a function. -/
def Definition.clashes : Definition → List Clash
  | .mk name parameters rest body =>
    (Definition.repeats ⟨name, parameters, rest, body⟩).map .repeated ++ clashesBody body

/-- The clashes in a statement. -/
def Stmt.clashes : Stmt → List Clash
  | .expr e => e.clashes
  | .declare _ bindings => clashesBindings bindings
  | .function definition => definition.clashes
  | .block body => (repeats (lexicalNames body)).map .repeated ++ clashesBody body
  | .branch test yes no => test.clashes ++ ((yes.asBranch ++ yes.clashes) ++ clashesElse no)
  | .loop init test update body =>
    ((repeats ((init.map Stmt.lexical).getD [])).map .repeated ++ clashesStmt init) ++
      ((clashesOption test ++ clashesOption update) ++ (body.asBranch ++ body.clashes))
  | .forIn _ subject body => subject.clashes ++ (body.asBranch ++ body.clashes)
  | .forOf _ subject body => subject.clashes ++ (body.asBranch ++ body.clashes)
  | .whileLoop test body => test.clashes ++ (body.asBranch ++ body.clashes)
  | .break => []
  | .continue => []
  | .return value => clashesOption value
  | .empty => []

/-- The clashes in an expression that may be absent. -/
def clashesOption : Option Expr → List Clash
  | none => []
  | some e => e.clashes

/-- The clashes in a statement that may be absent. -/
def clashesStmt : Option Stmt → List Clash
  | none => []
  | some s => s.clashes

/-- The clashes in a branch that may be absent. -/
def clashesElse : Option Stmt → List Clash
  | none => []
  | some s => s.asBranch ++ s.clashes

/-- The clashes in the values of a declaration. -/
def clashesBindings : List (String × Option Expr) → List Clash
  | [] => []
  | (_, value) :: rest => clashesOption value ++ clashesBindings rest

/-- The clashes in several statements. -/
def clashesBody : List Stmt → List Clash
  | [] => []
  | s :: rest => s.clashes ++ clashesBody rest

end

theorem Definition.clashes_eq (d : Definition) :
    d.clashes = d.repeats.map .repeated ++ clashesBody d.body := by
  cases d
  rfl

/-! ### Names that do not clash -/

/-- Whether a name is in none of some clashes. -/
def Clear (name : String) (clashes : List Clash) : Prop :=
  ∀ c ∈ clashes, c.name ≠ name

section
variable {name : String}

theorem clear_append {l m : List Clash} : Clear name (l ++ m) ↔ Clear name l ∧ Clear name m := by
  simp only [Clear, List.mem_append, or_imp, forall_and]

theorem clear_iff {clashes : List Clash} :
    Clear name clashes ↔ .unbraced name ∉ clashes ∧ .repeated name ∉ clashes := by
  constructor
  · exact fun h => ⟨fun hm => h _ hm rfl, fun hm => h _ hm rfl⟩
  · rintro ⟨hu, hr⟩ c hc rfl
    cases c with
    | unbraced n => exact hu hc
    | repeated n => exact hr hc

theorem Clear.not_mem_lexical {s : Stmt} (h : Clear name s.asBranch) : name ∉ s.lexical :=
  fun hm => h (.unbraced name) (List.mem_map_of_mem hm) rfl

theorem Clear.not_mem_of_repeated {names : List String} (h : Clear name (names.map .repeated)) :
    name ∉ names :=
  fun hm => h (.repeated name) (List.mem_map_of_mem hm) rfl

theorem count_le_one {names : List String} (h : name ∉ repeats names) : names.count name ≤ 1 := by
  by_cases hm : name ∈ names
  · refine Nat.le_of_not_lt fun hlt => h ?_
    exact List.mem_filter.mpr ⟨hm, decide_eq_true hlt⟩
  · rw [List.count_eq_zero_of_not_mem hm]
    exact Nat.zero_le _

theorem repeats_subset {names : List String} (h : name ∈ repeats names) : name ∈ names :=
  (List.mem_filter.mp h).1

theorem clashesBody_append (l m : List Stmt) :
    clashesBody (l ++ m) = clashesBody l ++ clashesBody m := by
  induction l with
  | nil => rfl
  | cons s l ih => simp only [List.cons_append, clashesBody, ih, List.append_assoc]

/-- What a function without clashes binds of a name: no more than one declaration with `let` or
`const`, and nothing else beside it. -/
theorem Clear.binds {d : Definition} (h : Clear name d.clashes) :
    (lexicalNames d.body).count name ≤ 1 ∧
      (name ∈ lexicalNames d.body →
        name ∉ d.parameters ++ d.rest.toList ∧ name ∉ hoistedNames d.body) := by
  rw [d.clashes_eq, clear_append] at h
  have hnot := h.1.not_mem_of_repeated
  rw [Definition.repeats, List.mem_append, not_or] at hnot
  refine ⟨count_le_one hnot.1, fun hm => ?_⟩
  have hother : name ∉ d.parameters ++ d.rest.toList ++ hoistedNames d.body :=
    fun ho => hnot.2 (List.mem_filter.mpr ⟨hm, List.contains_iff_mem.mpr ho⟩)
  rwa [List.mem_append, not_or] at hother

end

end Stencil.Script
