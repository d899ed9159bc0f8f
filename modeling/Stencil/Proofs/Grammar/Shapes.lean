import Stencil.Script.Tree

/-!
# Grammar — shapes of trees

What stands in a tree stands there in one of two ways.  The left operand of an operator, the object of a
member or an index and the callee of a call are *chained* to it: they stand before it in the text, and
`a + b + c` chains `a` to `a + b` and this to the whole.  All else is *part* of it.

* `Shape`: a tree with nothing but this kept, and `Expr.shape`, `Stmt.shape`, `Definition.shape`.
* `Shape.depth`: how deep a shape is, where a link counts as much as one says; `Shape.height` counts
  links, and `Shape.levels` does not.
* `Shape.links`: the length of the longest chain.
* `Shape.height_le`, `Shape.links_le_height`: a shape is no higher than its levels, for each link of its
  longest chain and once more, and no lower than that chain is long.
-/

namespace Stencil.Script

/-- The shape of a tree: a node with its parts, and possibly one chained to it. -/
inductive Shape where
  | node (parts : List Shape)
  | link (chained : Shape) (parts : List Shape)

/-! ### Measures -/

mutual

/-- The depth of a shape, a link counting as `weight`. -/
def Shape.depth (weight : Nat) : Shape → Nat
  | .node parts => depthAll weight parts + 1
  | .link chained parts => max (chained.depth weight + weight) (depthAll weight parts + 1)

/-- The greatest depth of some shapes. -/
def depthAll (weight : Nat) : List Shape → Nat
  | [] => 0
  | part :: rest => max (part.depth weight) (depthAll weight rest)

end

/-- The height of a shape: the most nodes and links on a way down. -/
def Shape.height (shape : Shape) : Nat := shape.depth 1

/-- The levels of a shape: the most nodes on a way down, links left out. -/
def Shape.levels (shape : Shape) : Nat := shape.depth 0

/-- The links of the chain that ends with a shape. -/
def Shape.chain : Shape → Nat
  | .node _ => 0
  | .link chained _ => chained.chain + 1

mutual

/-- The links of the longest chain. -/
def Shape.links : Shape → Nat
  | .node parts => linksAll parts
  | .link chained parts => max (max (chained.chain + 1) chained.links) (linksAll parts)

/-- The links of the longest chain in some shapes. -/
def linksAll : List Shape → Nat
  | [] => 0
  | part :: rest => max part.links (linksAll rest)

end

theorem Shape.chain_le_links (shape : Shape) : shape.chain ≤ shape.links := by
  cases shape with
  | node parts => exact Nat.zero_le _
  | link chained parts =>
      rw [chain, links]
      omega

mutual

/-- Each step of a chain costs one, and each level as much as the longest chain and one. -/
theorem Shape.depth_one_add_le {limit : Nat} : ∀ shape : Shape, shape.links ≤ limit →
    shape.depth 1 + limit ≤ shape.chain + (limit + 1) * shape.depth 0
  | .node parts, h => by
      rw [Shape.links] at h
      have hparts := depthAll_one_le parts h
      rw [Shape.depth, Shape.depth, Shape.chain, Nat.mul_succ]
      omega
  | .link chained parts, h => by
      rw [Shape.links] at h
      have hchained := @Shape.depth_one_add_le limit chained (by omega)
      have hparts := @depthAll_one_le limit parts (by omega)
      have hleft : (limit + 1) * chained.depth 0 ≤
          (limit + 1) * max (chained.depth 0 + 0) (depthAll 0 parts + 1) :=
        Nat.mul_le_mul_left _ (Nat.le_max_left _ _)
      have hright : (limit + 1) * (depthAll 0 parts + 1) ≤
          (limit + 1) * max (chained.depth 0 + 0) (depthAll 0 parts + 1) :=
        Nat.mul_le_mul_left _ (Nat.le_max_right _ _)
      rw [Nat.mul_succ] at hright
      rw [Shape.depth, Shape.depth, Shape.chain]
      omega

theorem depthAll_one_le {limit : Nat} : ∀ parts : List Shape, linksAll parts ≤ limit →
    depthAll 1 parts ≤ (limit + 1) * depthAll 0 parts
  | [], _ => Nat.zero_le _
  | part :: rest, h => by
      rw [linksAll] at h
      have hpart := @Shape.depth_one_add_le limit part (by omega)
      have hchain := part.chain_le_links
      have hrest := @depthAll_one_le limit rest (by omega)
      have hleft : (limit + 1) * part.depth 0 ≤ (limit + 1) * max (part.depth 0) (depthAll 0 rest) :=
        Nat.mul_le_mul_left _ (Nat.le_max_left _ _)
      have hright : (limit + 1) * depthAll 0 rest ≤ (limit + 1) * max (part.depth 0) (depthAll 0 rest) :=
        Nat.mul_le_mul_left _ (Nat.le_max_right _ _)
      rw [depthAll, depthAll]
      omega

end

/-- **How high a shape is**: no more than its levels, for each link of its longest chain and once. -/
theorem Shape.height_le (shape : Shape) : shape.height ≤ (shape.links + 1) * shape.levels := by
  have h := shape.depth_one_add_le (Nat.le_refl _)
  have hchain := shape.chain_le_links
  rw [height, levels]
  omega

mutual

theorem Shape.links_le_depth_one : ∀ shape : Shape,
    shape.chain ≤ shape.depth 1 ∧ shape.links ≤ shape.depth 1
  | .node parts => by
      have hparts := linksAll_le_depthAll_one parts
      rw [Shape.chain, Shape.links, Shape.depth]
      omega
  | .link chained parts => by
      have hchained := chained.links_le_depth_one
      have hparts := linksAll_le_depthAll_one parts
      rw [Shape.chain, Shape.links, Shape.depth]
      omega

theorem linksAll_le_depthAll_one : ∀ parts : List Shape, linksAll parts ≤ depthAll 1 parts
  | [] => Nat.zero_le _
  | part :: rest => by
      have hpart := part.links_le_depth_one
      have hrest := linksAll_le_depthAll_one rest
      rw [linksAll, depthAll]
      omega

end

/-- A shape is at least as high as its longest chain is long. -/
theorem Shape.links_le_height (shape : Shape) : shape.links ≤ shape.height :=
  shape.links_le_depth_one.2

/-! ### Shapes of trees -/

mutual

/-- The shape of an expression. -/
def Expr.shape : Expr → Shape
  | .number _ => .node []
  | .string _ => .node []
  | .bool _ => .node []
  | .null => .node []
  | .name _ => .node []
  | .array items => .node (shapes items)
  | .object fields => .node (fieldShapes fields)
  | .function definition => .node [definition.shape]
  | .member object _ => .link object.shape []
  | .index object key => .link object.shape [key.shape]
  | .call callee arguments => .link callee.shape (shapes arguments)
  | .unary _ operand => .node [operand.shape]
  | .update _ _ target => .node [target.shape]
  | .binary _ left right => .link left.shape [right.shape]
  | .logical _ left right => .link left.shape [right.shape]
  | .conditional test yes no => .node [test.shape, yes.shape, no.shape]
  | .assign _ target value => .node [target.shape, value.shape]

/-- The shapes of expressions. -/
def shapes : List Expr → List Shape
  | [] => []
  | e :: rest => e.shape :: shapes rest

/-- The shapes of the values of fields. -/
def fieldShapes : List (String × Expr) → List Shape
  | [] => []
  | (_, value) :: rest => value.shape :: fieldShapes rest

/-- The shape of a function. -/
def Definition.shape : Definition → Shape
  | .mk _ _ _ body => .node (bodyShapes body)

/-- The shape of a statement. -/
def Stmt.shape : Stmt → Shape
  | .expr e => .node [e.shape]
  | .declare _ bindings => .node (bindingShapes bindings)
  | .function definition => .node [definition.shape]
  | .block body => .node (bodyShapes body)
  | .branch test yes no => .node (test.shape :: yes.shape :: stmtShapes no)
  | .loop init test update body =>
    .node (body.shape :: stmtShapes init ++ (optionShapes test ++ optionShapes update))
  | .forIn _ subject body => .node [subject.shape, body.shape]
  | .forOf _ subject body => .node [subject.shape, body.shape]
  | .whileLoop test body => .node [test.shape, body.shape]
  | .break => .node []
  | .continue => .node []
  | .return value => .node (optionShapes value)
  | .empty => .node []

/-- The shape of an expression that may be left out. -/
def optionShapes : Option Expr → List Shape
  | none => []
  | some e => [e.shape]

/-- The shape of a statement that may be left out. -/
def stmtShapes : Option Stmt → List Shape
  | none => []
  | some s => [s.shape]

/-- The shapes of the values of a declaration. -/
def bindingShapes : List (String × Option Expr) → List Shape
  | [] => []
  | (_, value) :: rest => optionShapes value ++ bindingShapes rest

/-- The shapes of statements. -/
def bodyShapes : List Stmt → List Shape
  | [] => []
  | s :: rest => s.shape :: bodyShapes rest

end

/-- The shape of the body of a function. -/
def bodyShape (body : List Stmt) : Shape :=
  .node (bodyShapes body)

theorem depthAll_append (weight : Nat) (parts more : List Shape) :
    depthAll weight (parts ++ more) = max (depthAll weight parts) (depthAll weight more) := by
  induction parts with
  | nil => rw [List.nil_append, depthAll, Nat.zero_max]
  | cons part parts ih => rw [List.cons_append, depthAll, depthAll, ih, Nat.max_assoc]

end Stencil.Script
