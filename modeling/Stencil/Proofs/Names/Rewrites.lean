import Stencil.Script.Names

/-!
# Names — names that are only added to

`x += e` keeps what `x` holds.  `rewrites` lists the names that a script binds, or writes in any
other way than this, in nested functions too.  A name that is not among them is bound outside, if at
all, and what it holds only grows.

* `mem_rewritesBody_of_hoisted`: what a body binds for the whole function is among its rewrites.
-/

namespace Stencil.Script

/-- The name that an expression is. -/
def Expr.name? : Expr → Option String
  | .name word => some word
  | _ => none

/-- The name that an assignment to an expression rewrites. -/
def Expr.rewritten (target : Expr) (op : Option BinaryOp) : List String :=
  if op = some .add then [] else target.name?.toList

mutual

/-- The names that an expression rewrites. -/
def Expr.rewrites : Expr → List String
  | .number _ => []
  | .string _ => []
  | .bool _ => []
  | .null => []
  | .name _ => []
  | .array items => rewritesAll items
  | .object fields => rewritesFields fields
  | .function definition => definition.rewrites
  | .member object _ => object.rewrites
  | .index object key => object.rewrites ++ key.rewrites
  | .call callee arguments => callee.rewrites ++ rewritesAll arguments
  | .unary _ operand => operand.rewrites
  | .update _ _ target => target.name?.toList ++ target.rewrites
  | .binary _ left right => left.rewrites ++ right.rewrites
  | .logical _ left right => left.rewrites ++ right.rewrites
  | .conditional test yes no => test.rewrites ++ (yes.rewrites ++ no.rewrites)
  | .assign op target value => target.rewritten op ++ (target.rewrites ++ value.rewrites)

/-- The names that several expressions rewrite. -/
def rewritesAll : List Expr → List String
  | [] => []
  | e :: rest => e.rewrites ++ rewritesAll rest

/-- The names that the values of fields rewrite. -/
def rewritesFields : List (String × Expr) → List String
  | [] => []
  | (_, value) :: rest => value.rewrites ++ rewritesFields rest

/-- The names that a function binds and rewrites. -/
def Definition.rewrites : Definition → List String
  | .mk name parameters rest body =>
    name.toList ++ (parameters ++ rest.toList) ++ rewritesBody body

/-- The names that a statement binds and rewrites. -/
def Stmt.rewrites : Stmt → List String
  | .expr e => e.rewrites
  | .declare _ bindings => rewritesBindings bindings
  | .function definition => definition.name.getD "" :: definition.rewrites
  | .block body => rewritesBody body
  | .branch test yes no => test.rewrites ++ (yes.rewrites ++ rewritesStmt no)
  | .loop init test update body =>
    rewritesStmt init ++ (rewritesOption test ++ (rewritesOption update ++ body.rewrites))
  | .forIn binding subject body => binding.name :: (subject.rewrites ++ body.rewrites)
  | .forOf binding subject body => binding.name :: (subject.rewrites ++ body.rewrites)
  | .whileLoop test body => test.rewrites ++ body.rewrites
  | .break => []
  | .continue => []
  | .return value => rewritesOption value
  | .empty => []

/-- The names that an expression that may be absent rewrites. -/
def rewritesOption : Option Expr → List String
  | none => []
  | some e => e.rewrites

/-- The names that a statement that may be absent binds and rewrites. -/
def rewritesStmt : Option Stmt → List String
  | none => []
  | some s => s.rewrites

/-- The names of a declaration, and those that its values rewrite. -/
def rewritesBindings : List (String × Option Expr) → List String
  | [] => []
  | (name, value) :: rest => name :: (rewritesOption value ++ rewritesBindings rest)

/-- The names that several statements bind and rewrite. -/
def rewritesBody : List Stmt → List String
  | [] => []
  | s :: rest => s.rewrites ++ rewritesBody rest

end

theorem Definition.rewrites_eq (d : Definition) :
    d.rewrites = d.name.toList ++ (d.parameters ++ d.rest.toList) ++ rewritesBody d.body := by
  cases d
  rfl

/-! ### Hoisted names -/

section
variable {name : String}

theorem mem_rewritesBindings {bindings : List (String × Option Expr)}
    (h : name ∈ bindings.map Prod.fst) : name ∈ rewritesBindings bindings := by
  induction bindings with
  | nil => cases h
  | cons first rest ih =>
      rw [rewritesBindings, List.mem_cons, List.mem_append]
      rcases List.mem_cons.mp h with h | h
      · exact .inl h
      · exact .inr (.inr (ih h))

theorem eq_of_mem_loopHoisted {binding : LoopBinding} (h : name ∈ loopHoisted binding) :
    name = binding.name := by
  rw [loopHoisted] at h
  split at h
  · exact List.mem_singleton.mp h
  · cases h

mutual

/-- What a statement binds for the whole function is among its rewrites. -/
theorem Stmt.mem_rewrites_of_hoisted : ∀ s : Stmt, name ∈ s.hoisted → name ∈ s.rewrites
  | .declare .var _, h => mem_rewritesBindings h
  | .function definition, h => by
      rw [Stmt.rewrites, definition.rewrites_eq]
      exact List.mem_cons_of_mem _ (List.mem_append_left _ (List.mem_append_left _ h))
  | .block body, h => mem_rewritesBody_of_hoisted body h
  | .branch _ yes no, h => by
      rw [Stmt.rewrites, List.mem_append, List.mem_append]
      exact .inr ((List.mem_append.mp h).imp yes.mem_rewrites_of_hoisted
        (mem_rewritesStmt_of_hoisted no))
  | .loop init _ _ body, h => by
      rw [Stmt.rewrites, List.mem_append, List.mem_append, List.mem_append]
      exact (List.mem_append.mp h).imp (mem_rewritesStmt_of_hoisted init)
        fun h => .inr (.inr (body.mem_rewrites_of_hoisted h))
  | .forIn binding _ body, h => by
      rw [Stmt.rewrites, List.mem_cons, List.mem_append]
      exact (List.mem_append.mp h).imp eq_of_mem_loopHoisted
        fun h => .inr (body.mem_rewrites_of_hoisted h)
  | .forOf binding _ body, h => by
      rw [Stmt.rewrites, List.mem_cons, List.mem_append]
      exact (List.mem_append.mp h).imp eq_of_mem_loopHoisted
        fun h => .inr (body.mem_rewrites_of_hoisted h)
  | .whileLoop _ body, h => List.mem_append_right _ (body.mem_rewrites_of_hoisted h)
  | .expr _, h | .declare .let _, h | .declare .const _, h | .break, h | .continue, h | .return _, h
  | .empty, h => by simp [Stmt.hoisted] at h

theorem mem_rewritesStmt_of_hoisted :
    ∀ s : Option Stmt, name ∈ hoistedIn s → name ∈ rewritesStmt s
  | none, h => by simp [hoistedIn] at h
  | some s, h => s.mem_rewrites_of_hoisted h

theorem mem_rewritesBody_of_hoisted :
    ∀ body : List Stmt, name ∈ hoistedNames body → name ∈ rewritesBody body
  | [], h => by simp [hoistedNames] at h
  | s :: rest, h => by
      rw [hoistedNames, List.mem_append] at h
      rw [rewritesBody, List.mem_append]
      exact h.imp s.mem_rewrites_of_hoisted (mem_rewritesBody_of_hoisted rest)

end

end

end Stencil.Script
