import Stencil.Proofs.Names.Mentions
import Stencil.Script.Token

/-!
# Grammar — well-formed trees

What the parser makes sure of and the types of trees do not say: names are names of the language,
what is assigned to can be assigned to, a function that is declared has a name, a constant has a
value, the header of a loop begins with a declaration or an expression, and jumps stand in loops.

`Definition.Formed.mentions` reads this off the mentions: none is stray, and all names are names.
-/

namespace Stencil.Script

/-- Whether a kind of token can stand in a text: its names are names. -/
def TokenKind.Sound : TokenKind → Prop
  | .name word => isName word = true
  | _ => True

theorem TokenKind.isStop_eq_false {kind : TokenKind} (h : kind ≠ .stop) : kind.isStop = false := by
  cases kind with
  | stop => exact absurd rfl h
  | _ => rfl

/-- A kind that stands for something is not the end. -/
theorem TokenKind.ne_stop_of_some {β : Type} {f : TokenKind → Option β} {kind : TokenKind} {b : β}
    (h : f kind = some b) (hstop : f .stop = none) : kind ≠ .stop := by
  rintro rfl
  rw [hstop] at h
  cases h

theorem TokenKind.isStop_of_some {β : Type} {f : TokenKind → Option β} {kind : TokenKind} {b : β}
    (h : f kind = some b) (hstop : f .stop = none) : kind.isStop = false :=
  isStop_eq_false (ne_stop_of_some h hstop)

/-- Whether the first part of a loop header is one: a declaration or an expression. -/
def Stmt.isHeader : Stmt → Prop
  | .expr _ => True
  | .declare _ _ => True
  | _ => False

mutual

/-- Well-formed expressions. -/
def Expr.Formed : Expr → Prop
  | .number _ => True
  | .string _ => True
  | .bool _ => True
  | .null => True
  | .name word => isName word = true
  | .array items => FormedAll items
  | .object fields => FormedFields fields
  | .function definition => definition.Formed
  | .member object _ => object.Formed
  | .index object key => object.Formed ∧ key.Formed
  | .call callee arguments => callee.Formed ∧ FormedAll arguments
  | .unary _ operand => operand.Formed
  | .update _ _ target => target.isAssignable = true ∧ target.Formed
  | .binary _ left right => left.Formed ∧ right.Formed
  | .logical _ left right => left.Formed ∧ right.Formed
  | .conditional test yes no => test.Formed ∧ yes.Formed ∧ no.Formed
  | .assign _ target value => target.isAssignable = true ∧ target.Formed ∧ value.Formed

/-- Well-formed lists of expressions. -/
def FormedAll : List Expr → Prop
  | [] => True
  | e :: rest => e.Formed ∧ FormedAll rest

/-- Well-formed fields. -/
def FormedFields : List (String × Expr) → Prop
  | [] => True
  | (_, value) :: rest => value.Formed ∧ FormedFields rest

/-- Well-formed functions. -/
def Definition.Formed : Definition → Prop
  | .mk name parameters rest body =>
    (∀ word ∈ name.toList ++ (parameters ++ rest.toList), isName word = true) ∧
      FormedBody False body

/-- Well-formed statements, in a loop or not. -/
def Stmt.Formed (inLoop : Prop) : Stmt → Prop
  | .expr e => e.Formed
  | .declare kind bindings => FormedBindings kind bindings
  | .function definition => definition.name.isSome = true ∧ definition.Formed
  | .block body => FormedBody inLoop body
  | .branch test yes no => test.Formed ∧ yes.Formed inLoop ∧ FormedStmt inLoop no
  | .loop init test update body =>
    (∀ s, init = some s → s.isHeader) ∧ FormedStmt True init ∧ FormedOption test ∧
      FormedOption update ∧ body.Formed True
  | .forIn binding subject body => isName binding.name = true ∧ subject.Formed ∧ body.Formed True
  | .forOf binding subject body => isName binding.name = true ∧ subject.Formed ∧ body.Formed True
  | .whileLoop test body => test.Formed ∧ body.Formed True
  | .break => inLoop
  | .continue => inLoop
  | .return value => FormedOption value
  | .empty => True

/-- Well-formed optional expressions. -/
def FormedOption : Option Expr → Prop
  | none => True
  | some e => e.Formed

/-- Well-formed optional statements. -/
def FormedStmt (inLoop : Prop) : Option Stmt → Prop
  | none => True
  | some s => s.Formed inLoop

/-- Well-formed declarations of a kind. -/
def FormedBindings (kind : DeclKind) : List (String × Option Expr) → Prop
  | [] => True
  | (name, value) :: rest =>
    isName name = true ∧ (kind = .const → value.isSome = true) ∧ FormedOption value ∧
      FormedBindings kind rest

/-- Well-formed statement lists. -/
def FormedBody (inLoop : Prop) : List Stmt → Prop
  | [] => True
  | s :: rest => s.Formed inLoop ∧ FormedBody inLoop rest

end

/-! ### Mentions in well-formed trees -/

/-- Whether a mention is of a name of the language. -/
def Mention.Proper (m : Mention) : Prop :=
  m ≠ .stray ∧ ∀ word, m.name? = some word → isName word = true

theorem Expr.asTarget_proper {e : Expr} (ha : e.isAssignable = true) (h : e.Formed) :
    ∀ m ∈ e.asTarget, m.Proper := by
  intro m hm
  cases e with
  | name word =>
      obtain rfl := List.mem_singleton.mp hm
      refine ⟨nofun, fun w hw => ?_⟩
      cases hw
      exact h
  | member object key => cases hm
  | index object key => cases hm
  | _ => cases ha

theorem LoopBinding.mentions_proper {binding : LoopBinding} (h : isName binding.name = true) :
    ∀ m ∈ binding.mentions, m.Proper := by
  intro m hm
  obtain ⟨kind, name⟩ := binding
  cases kind with
  | none =>
      obtain rfl := List.mem_singleton.mp hm
      refine ⟨nofun, fun w hw => ?_⟩
      cases hw
      exact h
  | some kind =>
      obtain rfl := List.mem_singleton.mp hm
      refine ⟨nofun, fun w hw => ?_⟩
      cases hw
      exact h

theorem proper_append {l m : List Mention} (hl : ∀ x ∈ l, x.Proper) (hm : ∀ x ∈ m, x.Proper) :
    ∀ x ∈ l ++ m, x.Proper :=
  fun x hx => (List.mem_append.mp hx).elim (hl x) (hm x)

mutual

theorem Expr.Formed.mentions : ∀ e : Expr, e.Formed → ∀ m ∈ e.mentions, m.Proper
  | .number _, _ => by simp [Expr.mentions]
  | .string _, _ => by simp [Expr.mentions]
  | .bool _, _ => by simp [Expr.mentions]
  | .null, _ => by simp [Expr.mentions]
  | .name word, h => by
      intro m hm
      obtain rfl := List.mem_singleton.mp hm
      refine ⟨nofun, fun w hw => ?_⟩
      cases hw
      exact h
  | .array items, h => FormedAll.mentions items h
  | .object fields, h => FormedFields.mentions fields h
  | .function definition, h => Definition.Formed.mentions definition h
  | .member object _, h => Expr.Formed.mentions object h
  | .index object key, h =>
      proper_append (Expr.Formed.mentions object h.1) (Expr.Formed.mentions key h.2)
  | .call callee arguments, h =>
      proper_append (Expr.Formed.mentions callee h.1)
        (FormedAll.mentions arguments h.2)
  | .unary _ operand, h => Expr.Formed.mentions operand h
  | .update _ _ target, h =>
      proper_append (Expr.asTarget_proper h.1 h.2) (Expr.Formed.mentions target h.2)
  | .binary _ left right, h =>
      proper_append (Expr.Formed.mentions left h.1) (Expr.Formed.mentions right h.2)
  | .logical _ left right, h =>
      proper_append (Expr.Formed.mentions left h.1) (Expr.Formed.mentions right h.2)
  | .conditional test yes no, h =>
      proper_append (proper_append (Expr.Formed.mentions test h.1)
        (Expr.Formed.mentions yes h.2.1)) (Expr.Formed.mentions no h.2.2)
  | .assign _ target value, h =>
      proper_append (proper_append (Expr.asTarget_proper h.1 h.2.1)
        (Expr.Formed.mentions target h.2.1)) (Expr.Formed.mentions value h.2.2)

theorem FormedAll.mentions : ∀ es : List Expr, FormedAll es → ∀ m ∈ mentionsAll es, m.Proper
  | [], _ => by simp [mentionsAll]
  | e :: rest, h =>
      proper_append (Expr.Formed.mentions e h.1) (FormedAll.mentions rest h.2)

theorem FormedFields.mentions : ∀ fields : List (String × Expr), FormedFields fields →
    ∀ m ∈ mentionsFields fields, m.Proper
  | [], _ => by simp [mentionsFields]
  | (_, value) :: rest, h =>
      proper_append (Expr.Formed.mentions value h.1)
        (FormedFields.mentions rest h.2)

/-- The mentions in a well-formed function are proper. -/
theorem Definition.Formed.mentions : ∀ d : Definition, d.Formed → ∀ m ∈ d.mentions, m.Proper
  | .mk name parameters rest body, h => by
      refine proper_append (proper_append ?_ ?_) (FormedBody.mentions body h.2)
      · intro m hm
        obtain ⟨word, hw, rfl⟩ := List.mem_map.mp hm
        refine ⟨nofun, fun w e => ?_⟩
        cases e
        exact h.1 word (List.mem_append_left _ hw)
      · intro m hm
        obtain ⟨word, hw, rfl⟩ := List.mem_map.mp hm
        refine ⟨nofun, fun w e => ?_⟩
        cases e
        exact h.1 word (List.mem_append_right _ hw)

theorem Stmt.Formed.mentions {inLoop : Prop} :
    ∀ s : Stmt, s.Formed inLoop → ∀ m ∈ s.mentions, m.Proper
  | .expr e, h => Expr.Formed.mentions e h
  | .declare _ bindings, h => FormedBindings.mentions bindings h
  | .function definition, h => by
      have hm := Definition.Formed.mentions definition h.2
      intro m hmem
      rcases List.mem_cons.mp hmem with rfl | hmem
      · obtain ⟨name, hn⟩ := Option.isSome_iff_exists.mp h.1
        refine hm _ ?_
        rw [definition.mentions_eq, hn]
        simp
      · exact hm m hmem
  | .block body, h => FormedBody.mentions body h
  | .branch test yes no, h =>
      proper_append (proper_append (Expr.Formed.mentions test h.1)
        (Stmt.Formed.mentions yes h.2.1)) (FormedStmt.mentions no h.2.2)
  | .loop init test update body, h =>
      proper_append (proper_append (proper_append (FormedStmt.mentions init h.2.1)
        (FormedOption.mentions test h.2.2.1))
        (FormedOption.mentions update h.2.2.2.1)) (Stmt.Formed.mentions body h.2.2.2.2)
  | .forIn _ subject body, h =>
      proper_append (proper_append (LoopBinding.mentions_proper h.1)
        (Expr.Formed.mentions subject h.2.1)) (Stmt.Formed.mentions body h.2.2)
  | .forOf _ subject body, h =>
      proper_append (proper_append (LoopBinding.mentions_proper h.1)
        (Expr.Formed.mentions subject h.2.1)) (Stmt.Formed.mentions body h.2.2)
  | .whileLoop test body, h =>
      proper_append (Expr.Formed.mentions test h.1) (Stmt.Formed.mentions body h.2)
  | .break, _ => by simp [Stmt.mentions]
  | .continue, _ => by simp [Stmt.mentions]
  | .return value, h => FormedOption.mentions value h
  | .empty, _ => by simp [Stmt.mentions]

theorem FormedOption.mentions :
    ∀ e : Option Expr, FormedOption e → ∀ m ∈ mentionsOption e, m.Proper
  | none, _ => by simp [mentionsOption]
  | some e, h => Expr.Formed.mentions e h

theorem FormedStmt.mentions {inLoop : Prop} :
    ∀ s : Option Stmt, FormedStmt inLoop s → ∀ m ∈ mentionsStmt s, m.Proper
  | none, _ => by simp [mentionsStmt]
  | some s, h => Stmt.Formed.mentions s h

theorem FormedBindings.mentions {kind : DeclKind} :
    ∀ bindings : List (String × Option Expr), FormedBindings kind bindings →
      ∀ m ∈ mentionsBindings kind bindings, m.Proper
  | [], _ => by simp [mentionsBindings]
  | (name, value) :: rest, h => by
      intro m hm
      rcases List.mem_cons.mp hm with rfl | hm
      · refine ⟨nofun, fun w hw => ?_⟩
        cases hw
        exact h.1
      · exact proper_append (FormedOption.mentions value h.2.2.1)
          (FormedBindings.mentions rest h.2.2.2) m hm

theorem FormedBody.mentions {inLoop : Prop} :
    ∀ body : List Stmt, FormedBody inLoop body → ∀ m ∈ mentionsBody body, m.Proper
  | [], _ => by simp [mentionsBody]
  | s :: rest, h =>
      proper_append (Stmt.Formed.mentions s h.1) (FormedBody.mentions rest h.2)

end

/-- What a well-formed body binds for the whole function are names. -/
theorem isName_of_mem_hoistedNames {inLoop : Prop} {body : List Stmt} {name : String}
    (h : FormedBody inLoop body) (hn : name ∈ hoistedNames body) : isName name = true := by
  obtain ⟨m, hm, hh⟩ := isHoisted_of_mem_hoistedNames body hn
  refine (FormedBody.mentions body h m hm).2 name ?_
  cases m with
  | declared kind word =>
      cases kind with
      | var => exact congrArg some hh
      | _ => cases hh
  | named word => exact congrArg some hh
  | _ => cases hh

theorem Definition.Formed.body {d : Definition} (h : d.Formed) : FormedBody False d.body := by
  obtain ⟨name, parameters, rest, body⟩ := d
  exact h.2

/-! ### Statements in a loop -/

mutual

/-- What may stand outside of loops may stand in one. -/
theorem Stmt.Formed.inLoop {p : Prop} : ∀ s : Stmt, s.Formed p → s.Formed True
  | .block body, h => FormedBody.inLoop body h
  | .branch _ yes no, h => ⟨h.1, Stmt.Formed.inLoop yes h.2.1, FormedStmt.inLoop no h.2.2⟩
  | .break, _ => trivial
  | .continue, _ => trivial
  | .expr _, h => h
  | .declare _ _, h => h
  | .function _, h => h
  | .loop _ _ _ _, h => h
  | .forIn _ _ _, h => h
  | .forOf _ _ _, h => h
  | .whileLoop _ _, h => h
  | .return _, h => h
  | .empty, _ => trivial

theorem FormedStmt.inLoop {p : Prop} : ∀ s : Option Stmt, FormedStmt p s → FormedStmt True s
  | none, _ => trivial
  | some s, h => Stmt.Formed.inLoop s h

theorem FormedBody.inLoop {p : Prop} : ∀ body : List Stmt, FormedBody p body → FormedBody True body
  | [], _ => trivial
  | s :: rest, h => ⟨Stmt.Formed.inLoop s h.1, FormedBody.inLoop rest h.2⟩

end

end Stencil.Script
