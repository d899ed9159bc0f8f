import Stencil.Proofs.Grammar.Definitions
import Stencil.Proofs.Grammar.Inverse
import Stencil.Proofs.Grammar.Shapes

/-!
# Grammar — how high trees become

The limit on nesting is one on levels, and not on height.  Each production that opens a level of nesting
makes at most `levelHeight` levels of a tree around what it finds there (`low_levels`), but operators of
one strength, members, indices and calls are chained by loops, which no limit stops.

* `Makes`: what holds of all that a parser gives.
* `height_bounded`: a tree that is parsed has no more levels than a multiple of the limit, and is no
  higher than that for each link of its longest chain and once more.
* `Parser.parseBody_sum`: sums of any length are parsed, and so the height alone has no bound.
-/

namespace Stencil.Script
namespace Parser

/-! ### What parsers make -/

/-- **All that a parser gives** has a property. -/
def Makes {α : Type} (p : Parser α) (P : α → Prop) : Prop :=
  ∀ ts a rest, p.run ts = .ok (a, rest) → P a

namespace Makes
variable {α β : Type} {p : Parser α} {f : α → Parser β} {P : α → Prop} {Q : β → Prop}

theorem pure {a : α} (h : P a) : Makes (Pure.pure a) P := by
  intro ts b rest hrun
  cases hrun
  exact h

theorem bind (hp : Makes p P) (hf : ∀ a, P a → Makes (f a) Q) : Makes (p >>= f) Q := by
  intro ts b rest hrun
  obtain ⟨a, mid, ha, hb⟩ := run_bind_ok hrun
  exact hf a (hp ts a mid ha) mid b rest hb

/-- After something that does not matter. -/
theorem skip (hf : ∀ a, Makes (f a) Q) : Makes (p >>= f) Q :=
  bind (P := fun _ => True) (fun _ _ _ _ => trivial) fun a _ => hf a

theorem imp {P' : α → Prop} (h : Makes p P) (hi : ∀ a, P a → P' a) : Makes p P' :=
  fun ts a rest hrun => hi a (h ts a rest hrun)

theorem throw (e : ParseError) : Makes (throw e : Parser α) P := by
  intro ts a rest hrun
  cases hrun

theorem failHere (cause : ParseError.Cause) : Makes (Parser.failHere cause : Parser α) P :=
  skip fun _ => throw _

theorem unexpected : Makes (Parser.unexpected : Parser α) P :=
  skip fun _ => failHere _

theorem ite {c : Prop} [Decidable c] {q : Parser α} (hp : c → Makes p P) (hq : ¬ c → Makes q P) :
    Makes (if c then p else q) P := by
  split
  · exact hp ‹_›
  · exact hq ‹_›

/-- Operands that are chained are one level below what they make, however many they are. -/
theorem chain {operand : Parser Expr} {m : Nat} (ho : Makes operand fun e => e.shape.levels ≤ m)
    (strength rounds : Nat) {left : Expr} (hl : left.shape.levels ≤ m + 1) :
    Makes (Parser.chain operand strength rounds left) fun e => e.shape.levels ≤ m + 1 := by
  induction rounds generalizing left with
  | zero => exact .pure hl
  | succ rounds ih =>
      rw [Parser.chain]
      refine .skip fun kind => ?_
      split
      · exact .pure hl
      · rename_i op _
        refine .skip fun _ => ho.bind fun right hr => ih ?_
        have hright := Nat.succ_le_succ (Nat.max_le.mpr ⟨hr, Nat.zero_le m⟩)
        cases op with
        | binary => exact Nat.max_le.mpr ⟨hl, hright⟩
        | logical => exact Nat.max_le.mpr ⟨hl, hright⟩

end Makes

/-! ### Levels of trees -/

/-- A level whose productions make trees of no more than so many levels. -/
structure Level.Low (level : Level) (k : Nat) : Prop where
  statement (inLoop : Bool) : Makes (level.statement inLoop) fun s => s.shape.levels ≤ k
  assignment : Makes level.assignment fun e => e.shape.levels ≤ k
  unary : Makes level.unary fun e => e.shape.levels ≤ k

namespace Level.Low
variable {level : Level} {k : Nat} (h : level.Low k)
include h

theorem statements (inLoop : Bool) (bound : Nat) :
    Makes (Parser.statements level inLoop bound) fun body => depthAll 0 (bodyShapes body) ≤ k := by
  induction bound with
  | zero => exact .pure (Nat.zero_le _)
  | succ bound ih =>
      refine .skip fun _ => .skip fun _ => .ite (fun _ => .pure (Nat.zero_le _)) fun _ => ?_
      exact (h.statement inLoop).bind fun _ hfirst => ih.bind fun _ hothers =>
        .pure (Nat.max_le.mpr ⟨hfirst, hothers⟩)

theorem braced (inLoop : Bool) (bound : Nat) :
    Makes (Parser.braced level inLoop bound) fun body => depthAll 0 (bodyShapes body) ≤ k :=
  .skip fun _ => (h.statements inLoop bound).bind fun _ hbody => .skip fun _ => .pure hbody

theorem definitionRest (bound : Nat) (name : Option String) :
    Makes (Parser.definitionRest level bound name) fun d => d.shape.levels ≤ k + 1 :=
  .skip fun _ => .skip fun _ => .skip fun _ => (h.braced false bound).bind fun _ hbody =>
    .pure (Nat.succ_le_succ hbody)

theorem items (close : Punctuator) (bound : Nat) :
    Makes (Parser.items level close bound) fun all => depthAll 0 (shapes all) ≤ k := by
  induction bound with
  | zero => exact .pure (Nat.zero_le _)
  | succ bound ih =>
      refine .skip fun _ => .ite (fun _ => .pure (Nat.zero_le _)) fun _ => ?_
      refine h.assignment.bind fun _ hfirst => .skip fun _ => .ite (fun _ => ?_) fun _ => ?_
      · exact ih.bind fun _ hothers => .pure (Nat.max_le.mpr ⟨hfirst, hothers⟩)
      · exact .pure (Nat.max_le.mpr ⟨hfirst, Nat.zero_le _⟩)

theorem itemsClosed (bound : Nat) (close : Punctuator) :
    Makes (Parser.itemsClosed level bound close) fun all => depthAll 0 (shapes all) ≤ k :=
  (h.items close bound).bind fun _ hall => .skip fun _ => .pure hall

/-- The value of a field, which is a name where only the key is written. -/
theorem field : Makes (Parser.field level) fun f => f.2.shape.levels ≤ k + 1 := by
  refine .skip fun kind => ?_
  split
  · exact .unexpected
  · refine .skip fun _ => .skip fun _ => .ite (fun _ => ?_) fun _ => .ite (fun _ => ?_) fun _ => .unexpected
    · exact h.assignment.bind fun _ hvalue => .pure (Nat.le_succ_of_le hvalue)
    · exact .pure (Nat.le_add_left 1 k)

theorem fields (bound : Nat) :
    Makes (Parser.fields level bound) fun all => depthAll 0 (fieldShapes all) ≤ k + 1 := by
  induction bound with
  | zero => exact .pure (Nat.zero_le _)
  | succ bound ih =>
      refine .skip fun _ => .ite (fun _ => .pure (Nat.zero_le _)) fun _ => ?_
      refine h.field.bind fun _ hfirst => .skip fun _ => .ite (fun _ => ?_) fun _ => ?_
      · exact ih.bind fun _ hothers => .pure (Nat.max_le.mpr ⟨hfirst, hothers⟩)
      · exact .pure (Nat.max_le.mpr ⟨hfirst, Nat.zero_le _⟩)

/-! ### Expressions -/

theorem primary (bound : Nat) :
    Makes (Parser.primary level bound) fun e => e.shape.levels ≤ k + 2 := by
  have atom {e : Expr} (he : e.shape = .node []) :
      Makes (Pure.pure e : Parser Expr) fun e => e.shape.levels ≤ k + 2 := by
    refine .pure ?_
    rw [he]
    exact Nat.le_add_left 1 (k + 1)
  rw [Parser.primary]
  refine .skip fun token => ?_
  split
  · exact atom rfl
  · exact atom rfl
  · exact atom rfl
  · exact atom rfl
  · exact atom rfl
  · exact atom rfl
  · exact .skip fun name => (h.definitionRest bound name).bind fun _ hd =>
      .pure (Nat.succ_le_succ (Nat.max_le.mpr ⟨hd, Nat.zero_le _⟩))
  · exact h.assignment.bind fun _ he => .skip fun _ => .pure (Nat.le_add_right_of_le he)
  · exact (h.itemsClosed bound .closeBracket).bind fun _ hall =>
      .pure (Nat.le_succ_of_le (Nat.succ_le_succ hall))
  · exact (h.fields bound).bind fun _ hall => .skip fun _ => .pure (Nat.succ_le_succ hall)
  · exact .throw _

/-- Nothing that is chained to an expression opens a level around it. -/
theorem suffixes (bound rounds : Nat) {e : Expr} (he : e.shape.levels ≤ k + 2) :
    Makes (Parser.suffixes level bound rounds e) fun e => e.shape.levels ≤ k + 2 := by
  induction rounds generalizing e with
  | zero => exact .pure he
  | succ rounds ih =>
      rw [Parser.suffixes]
      refine .skip fun _ => .ite (fun _ => ?_) fun _ => .skip fun _ => .ite (fun _ => ?_) fun _ =>
        .skip fun _ => .ite (fun _ => ?_) fun _ => .pure he
      · refine .skip fun kind => ?_
        split
        · exact .unexpected
        · exact .skip fun _ => ih (Nat.max_le.mpr ⟨he, Nat.le_add_left 1 (k + 1)⟩)
      · refine h.assignment.bind fun key hkey => .skip fun _ => ih (Nat.max_le.mpr ⟨he, ?_⟩)
        exact Nat.succ_le_succ (Nat.le_succ_of_le (Nat.max_le.mpr ⟨hkey, Nat.zero_le _⟩))
      · refine (h.itemsClosed bound .closeParen).bind fun _ hall => ih (Nat.max_le.mpr ⟨he, ?_⟩)
        exact Nat.succ_le_succ (Nat.le_succ_of_le hall)

theorem postfixed (bound : Nat) :
    Makes (Parser.postfixed level bound) fun e => e.shape.levels ≤ k + 3 := by
  refine (h.primary bound).bind fun _ hfirst => (h.suffixes bound bound hfirst).bind fun e he =>
    .skip fun _ => .ite (fun _ => .ite (fun _ => .skip fun _ => .pure ?_) fun _ => .failHere _)
      fun _ => .pure (Nat.le_succ_of_le he)
  exact Nat.succ_le_succ (Nat.max_le.mpr ⟨he, Nat.zero_le _⟩)

theorem unaryBody (bound : Nat) :
    Makes (Parser.unaryBody level bound) fun e => e.shape.levels ≤ k + 3 := by
  have around {e : Expr} (he : e.shape.levels ≤ k) : (Shape.node [e.shape]).levels ≤ k + 3 :=
    Nat.succ_le_succ (Nat.max_le.mpr ⟨Nat.le_add_right_of_le he, Nat.zero_le _⟩)
  refine .skip fun kind => ?_
  split
  · exact .skip fun _ => h.unary.bind fun _ he => .pure (around he)
  · refine .ite (fun _ => .skip fun _ => h.unary.bind fun _ he => ?_) fun _ => h.postfixed bound
    exact .ite (fun _ => .pure (around he)) fun _ => .failHere _

theorem infixed (bound count : Nat) :
    Makes (Parser.infixed level bound count) fun e => e.shape.levels ≤ k + count := by
  induction count with
  | zero => exact h.unary
  | succ count ih =>
      exact ih.bind fun _ hfirst => ih.chain (7 - count) bound (Nat.le_succ_of_le hfirst)

theorem conditional (bound : Nat) :
    Makes (Parser.conditional level bound) fun e => e.shape.levels ≤ k + 8 := by
  refine (h.infixed bound 7).bind fun test htest => .skip fun _ => .ite (fun _ => ?_) fun _ =>
    .pure (Nat.le_succ_of_le htest)
  refine h.assignment.bind fun yes hyes => .skip fun _ => h.assignment.bind fun no hno => .pure ?_
  refine Nat.succ_le_succ (Nat.max_le.mpr ⟨htest, Nat.max_le.mpr ⟨?_, Nat.max_le.mpr ⟨?_, ?_⟩⟩⟩)
  · exact Nat.le_add_right_of_le hyes
  · exact Nat.le_add_right_of_le hno
  · exact Nat.zero_le _

theorem assignmentBody (bound : Nat) :
    Makes (Parser.assignmentBody level bound) fun e => e.shape.levels ≤ k + 9 := by
  refine (h.conditional bound).bind fun left hleft => .skip fun kind => ?_
  split
  · exact .pure (Nat.le_succ_of_le hleft)
  · refine .ite (fun _ => .skip fun _ => h.assignment.bind fun value hvalue => .pure ?_) fun _ =>
      .failHere _
    exact Nat.succ_le_succ (Nat.max_le.mpr ⟨hleft, Nat.max_le.mpr ⟨Nat.le_add_right_of_le hvalue,
      Nat.zero_le _⟩⟩)

/-! ### Statements -/

theorem option (sign : Punctuator) :
    Makes (Parser.unlessSign level sign) fun e => depthAll 0 (optionShapes e) ≤ k :=
  .skip fun _ => .ite (fun _ => .pure (Nat.zero_le _)) fun _ => h.assignment.bind fun _ he =>
    .pure (Nat.max_le.mpr ⟨he, Nat.zero_le _⟩)

theorem binding (kind : DeclKind) :
    Makes (Parser.binding level kind) fun b => depthAll 0 (optionShapes b.2) ≤ k :=
  .skip fun _ => .skip fun _ => .ite
    (fun _ => h.assignment.bind fun _ he => .pure (Nat.max_le.mpr ⟨he, Nat.zero_le _⟩))
    fun _ => .ite (fun _ => .failHere _) fun _ => .pure (Nat.zero_le _)

theorem bindings (kind : DeclKind) (bound : Nat) :
    Makes (Parser.bindings level kind bound) fun all => depthAll 0 (bindingShapes all) ≤ k := by
  induction bound with
  | zero => exact .pure (Nat.zero_le _)
  | succ bound ih =>
      refine (h.binding kind).bind fun _ hfirst => .skip fun _ => .ite (fun _ => ?_) fun _ => ?_
      · refine ih.bind fun _ hothers => .pure ?_
        rw [bindingShapes, depthAll_append]
        exact Nat.max_le.mpr ⟨hfirst, hothers⟩
      · refine .pure ?_
        rw [bindingShapes, bindingShapes, List.append_nil]
        exact hfirst

theorem branchBody (inLoop : Bool) :
    Makes (Parser.branchBody level inLoop) fun s => s.shape.levels ≤ k + 1 := by
  refine .skip fun _ => .skip fun _ => h.assignment.bind fun _ htest => .skip fun _ =>
    (h.statement inLoop).bind fun _ hyes => .skip fun _ => .ite (fun _ => ?_) fun _ => .pure ?_
  · exact (h.statement inLoop).bind fun _ hno => .pure (Nat.succ_le_succ
      (Nat.max_le.mpr ⟨htest, Nat.max_le.mpr ⟨hyes, Nat.max_le.mpr ⟨hno, Nat.zero_le _⟩⟩⟩))
  · exact Nat.succ_le_succ (Nat.max_le.mpr ⟨htest, Nat.max_le.mpr ⟨hyes, Nat.zero_le _⟩⟩)

/-- The first part of a loop header is a statement around its expressions. -/
theorem loopInit (bound : Nat) :
    Makes (Parser.loopInit level bound) fun init => depthAll 0 (stmtShapes init) ≤ k + 1 := by
  refine .skip fun kind => .ite (fun _ => .pure (Nat.zero_le _)) fun _ => ?_
  split
  · exact .skip fun _ => (h.bindings _ bound).bind fun _ hall =>
      .pure (Nat.max_le.mpr ⟨Nat.succ_le_succ hall, Nat.zero_le _⟩)
  · exact h.assignment.bind fun _ he =>
      .pure (Nat.max_le.mpr ⟨Nat.succ_le_succ (Nat.max_le.mpr ⟨he, Nat.zero_le _⟩), Nat.zero_le _⟩)

theorem forBody (bound : Nat) :
    Makes (Parser.forBody level bound) fun s => s.shape.levels ≤ k + 2 := by
  refine .skip fun _ => .skip fun _ => .skip fun header => ?_
  split
  · refine h.assignment.bind fun _ hsubject => .skip fun _ => (h.statement true).bind fun _ hbody => ?_
    have around := Nat.le_succ_of_le (Nat.succ_le_succ (Nat.max_le.mpr ⟨hsubject,
      Nat.max_le.mpr ⟨hbody, Nat.zero_le k⟩⟩))
    split
    · exact .pure around
    · exact .pure around
  · refine (h.loopInit bound).bind fun init hinit => .skip fun _ => (h.option _).bind fun test htest =>
      .skip fun _ => (h.option _).bind fun update hupdate => .skip fun _ =>
      (h.statement true).bind fun body hbody => .pure (Nat.succ_le_succ ?_)
    rw [depthAll_append, depthAll_append]
    refine Nat.max_le.mpr ⟨Nat.max_le.mpr ⟨Nat.le_succ_of_le hbody, hinit⟩, Nat.max_le.mpr ⟨?_, ?_⟩⟩
    · exact Nat.le_succ_of_le htest
    · exact Nat.le_succ_of_le hupdate

theorem whileBody : Makes (Parser.whileBody level) fun s => s.shape.levels ≤ k + 1 :=
  .skip fun _ => .skip fun _ => h.assignment.bind fun _ htest => .skip fun _ =>
    (h.statement true).bind fun _ hbody => .pure (Nat.succ_le_succ
      (Nat.max_le.mpr ⟨htest, Nat.max_le.mpr ⟨hbody, Nat.zero_le _⟩⟩))

theorem returnBody : Makes (Parser.returnBody level) fun s => s.shape.levels ≤ k + 1 := by
  have ended {value : Option Expr} (hvalue : depthAll 0 (optionShapes value) ≤ k) :
      Makes (endStatement >>= fun _ => Pure.pure (Stmt.return value)) fun s => s.shape.levels ≤ k + 1 :=
    .skip fun _ => .pure (Nat.succ_le_succ hvalue)
  refine .skip fun _ => .skip fun semicolon => .skip fun ends => .ite (fun _ => ?_) fun _ => ?_
  · exact ended (Nat.zero_le k)
  · exact h.assignment.bind fun _ he => ended (Nat.max_le.mpr ⟨he, Nat.zero_le _⟩)

theorem functionBody (bound : Nat) :
    Makes (Parser.functionBody level bound) fun s => s.shape.levels ≤ k + 2 := by
  refine .skip fun _ => .skip fun name => ?_
  split
  · exact .failHere _
  · exact (h.definitionRest bound _).bind fun _ hd =>
      .pure (Nat.succ_le_succ (Nat.max_le.mpr ⟨hd, Nat.zero_le _⟩))

theorem statementBody (bound : Nat) (inLoop : Bool) :
    Makes (Parser.statementBody level bound inLoop) fun s => s.shape.levels ≤ k + 2 := by
  have jump (cause : ParseError.Cause) {s : Stmt} (hs : s.shape = .node []) :
      Makes (Parser.jump inLoop cause s) fun s => s.shape.levels ≤ k + 2 := by
    refine .ite (fun _ => .skip fun _ => .skip fun _ => .pure ?_) fun _ => .failHere _
    rw [hs]
    exact Nat.le_add_left 1 (k + 1)
  refine .skip fun kind => ?_
  split
  · exact (h.braced inLoop bound).bind fun _ hbody =>
      .pure (Nat.le_succ_of_le (Nat.succ_le_succ hbody))
  · exact .skip fun _ => .pure (Nat.le_add_left 1 (k + 1))
  · exact (h.branchBody inLoop).imp fun _ hs => Nat.le_succ_of_le hs
  · exact h.forBody bound
  · exact h.whileBody.imp fun _ hs => Nat.le_succ_of_le hs
  · exact jump _ rfl
  · exact jump _ rfl
  · exact h.returnBody.imp fun _ hs => Nat.le_succ_of_le hs
  · exact h.functionBody bound
  · split
    · exact .skip fun _ => (h.bindings _ bound).bind fun _ hall => .skip fun _ =>
        .pure (Nat.le_succ_of_le (Nat.succ_le_succ hall))
    · exact h.assignment.bind fun _ he => .skip fun _ =>
        .pure (Nat.le_succ_of_le (Nat.succ_le_succ (Nat.max_le.mpr ⟨he, Nat.zero_le _⟩)))

end Level.Low

/-! ### The limit -/

/-- The most levels of a tree that one level of nesting makes. -/
def levelHeight : Nat := 9

theorem low_levels (bound room : Nat) : (levels bound room).Low (levelHeight * room) := by
  induction room with
  | zero =>
      exact ⟨fun _ => .failHere _, .failHere _, .failHere _⟩
  | succ room ih =>
      rw [Nat.mul_succ, levelHeight]
      rw [levelHeight] at ih
      refine ⟨fun inLoop => ?_, ih.assignmentBody bound, ?_⟩
      · exact (ih.statementBody bound inLoop).imp fun _ hs => by omega
      · exact (ih.unaryBody bound).imp fun _ he => by omega

theorem Makes.of_runOn {α : Type} {p : Nat → Parser α} {P : α → Prop} (h : ∀ bound, Makes (p bound) P)
    {source : String} {a : α} (hrun : runOn p source = .ok a) : P a := by
  obtain ⟨ts, -, hrun⟩ := except_bind_ok hrun
  obtain ⟨⟨b, rest⟩, hrun, hb⟩ := except_bind_ok hrun
  cases hb
  exact h ts.length ts a rest hrun

theorem levels_of_parseBody {source : String} {body : List Stmt} (h : parseBody source = .ok body) :
    (bodyShape body).levels ≤ levelHeight * maxNesting + 1 := by
  refine Makes.of_runOn (P := fun body => (bodyShape body).levels ≤ levelHeight * maxNesting + 1)
    (fun bound => ?_) h
  exact ((low_levels bound maxNesting).statements false bound).bind fun _ hbody =>
    .skip fun _ => .pure (Nat.succ_le_succ hbody)

theorem levels_of_parseDefinition {source : String} {d : Definition}
    (h : parseDefinition source = .ok d) : d.shape.levels ≤ levelHeight * maxNesting + 1 := by
  refine Makes.of_runOn (P := fun d => d.shape.levels ≤ levelHeight * maxNesting + 1)
    (fun bound => ?_) h
  exact .skip fun _ => .ite (fun _ => .skip fun name =>
    ((low_levels bound maxNesting).definitionRest bound name).bind fun _ hd =>
      .skip fun _ => .pure hd) fun _ => .unexpected

/-! ### Sums -/

/-- So many names added to an expression, from left to right. -/
def sumFrom (left : Expr) : Nat → Expr
  | 0 => left
  | count + 1 => sumFrom (.binary .add left (.name "a")) count

/-- The tokens of so many names that are added. -/
def addends : Nat → List TokenKind
  | 0 => []
  | count + 1 => .sign .plus :: .name "a" :: addends count

/-- The tokens of a sum as a statement. -/
def sumKinds (count : Nat) : List TokenKind :=
  .name "a" :: (addends count ++ [.sign .semicolon])

/-- **A sum is as high as it is long.** -/
theorem height_sumFrom (left : Expr) (count : Nat) :
    left.shape.height + count ≤ (sumFrom left count).shape.height := by
  induction count generalizing left with
  | zero => exact Nat.le_refl _
  | succ count ih =>
      have hlink : left.shape.height + 1 ≤ (Expr.binary .add left (.name "a")).shape.height :=
        Nat.le_max_left _ _
      have hmore := ih (.binary .add left (.name "a"))
      rw [sumFrom]
      omega

theorem length_addends (count : Nat) : (addends count).length = 2 * count := by
  induction count with
  | zero => rfl
  | succ count ih => rw [addends, List.length_cons, List.length_cons, ih]; omega

theorem allWritable_sumKinds (count : Nat) : AllWritable (sumKinds count) := by
  have hname : (TokenKind.name "a").Writable := by
    show isName "a" = true
    decide
  have haddends : AllWritable (addends count) := by
    induction count with
    | zero => exact allWritable_nil
    | succ count ih => exact allWritable_cons.mpr ⟨trivial, allWritable_cons.mpr ⟨hname, ih⟩⟩
  exact allWritable_cons.mpr ⟨hname, allWritable_append.mpr ⟨haddends, allWritable_cons.mpr
    ⟨trivial, allWritable_nil⟩⟩⟩

section
variable {n room rounds count : Nat} {rest : List Token}

/-- Only weak signs follow a name in a sum. -/
theorem endsOperand_addends (count : Nat) (rest : List Token) :
    EndsOperand (headKind (line (addends count) ++ signToken .semicolon :: rest)) ∧
      infixOfStrength 7 (headKind (line (addends count) ++ signToken .semicolon :: rest)) = none := by
  have hsign {sign : Punctuator} (h : sign ∈ [Punctuator.semicolon, .plus]) :
      EndsOperand (.sign sign) ∧ infixOfStrength 7 (.sign sign) = none := by
    simp only [List.mem_cons, List.not_mem_nil, or_false] at h
    rcases h with rfl | rfl <;> exact ⟨by decide, rfl⟩
  cases count with
  | zero => exact hsign (by decide)
  | succ count => exact hsign (by decide)

/-- One name of a sum. -/
theorem gives_addend (count : Nat) : Gives False (infixed (levels n (room + 1)) n 1)
    (line (.name "a" :: addends count) ++ signToken .semicolon :: rest) (.name "a")
    (line (addends count) ++ signToken .semicolon :: rest) := by
  obtain ⟨hends, hstrength⟩ := endsOperand_addends count rest
  refine .operands (.atomOperand (by omega) rfl hends) fun k hk => ?_
  obtain rfl : k = 0 := by omega
  exact hstrength

theorem gives_addends (hrounds : count ≤ rounds) (left : Expr) :
    Gives False (chain (infixed (levels n (room + 1)) n 1) 6 rounds left)
      (line (addends count) ++ signToken .semicolon :: rest) (sumFrom left count)
      (signToken .semicolon :: rest) := by
  induction count generalizing rounds left with
  | zero => exact .chainDone rfl
  | succ count ih =>
      obtain ⟨rounds, rfl⟩ : ∃ m, rounds = m + 1 := ⟨rounds - 1, by omega⟩
      exact .chainStep (.binary .add) rfl (gives_addend count) (ih (by omega) _)

theorem gives_sum (hn : count ≤ n) :
    Gives False ((levels n (room + 3)).statement false) (line (sumKinds count) ++ rest)
      (.expr (sumFrom (.name "a") count)) rest := by
  have htokens : line (sumKinds count) ++ rest =
      line (.name "a" :: addends count) ++ signToken .semicolon :: rest := by
    rw [sumKinds, ← List.cons_append, line_append]
    rfl
  rw [htokens]
  refine .statement (by omega) fun r hr => .exprStatement rfl ?_
    (Gives.semicolon (t := signToken .semicolon) rfl)
  refine .assignment (by omega) fun r' hr' => ?_
  obtain rfl : r' = room + 1 := by omega
  refine .assignmentBody (.conditional (.infixed
    (.infixedChain (gives_addend count) (gives_addends hn _)) (fun _ _ => rfl) (by decide)) rfl) rfl

end

/-- **Sums are parsed, however long they are.** -/
theorem parseBody_sum (count : Nat) : parseBody (String.ofList (spelled (sumKinds count))) =
    .ok [.expr (sumFrom (.name "a") count)] := by
  refine parseBody_spelled (allWritable_sumKinds count) ⟨stopToken, rfl, ?_⟩
  have hlength : (line (sumKinds count) ++ [stopToken]).length = 2 * count + 3 := by
    simp [length_line, sumKinds, length_addends]
  have hroom : maxNesting = 509 + 3 := rfl
  rw [hlength, hroom]
  exact (Gives.statementsCons rfl (gives_sum (by omega)) (.statementsNil rfl)).run

theorem lt_height_sum (count : Nat) :
    count < (bodyShape [.expr (sumFrom (.name "a") count)]).height := by
  have hsum := height_sumFrom (.name "a") count
  have hname : (Expr.name "a").shape.height = 1 := rfl
  have hbody : (sumFrom (.name "a") count).shape.height ≤
      (bodyShape [.expr (sumFrom (.name "a") count)]).height := by
    refine Nat.le_succ_of_le (Nat.le_trans ?_ (Nat.le_max_left _ _))
    exact Nat.le_succ_of_le (Nat.le_max_left _ _)
  omega

end Parser

/-- **What the limit on nesting bounds.**  A tree that is parsed has at most ten times as many levels,
and it is no higher than that for each link of its longest chain and once more.  It is as high as its
longest chain is long, and there are chains of all lengths: the height alone is bounded by no multiple
of the limit. -/
theorem height_bounded (source : String) :
    (∀ body, parseBody source = .ok body → (bodyShape body).levels ≤ 10 * maxNesting ∧
      (bodyShape body).links ≤ (bodyShape body).height ∧
      (bodyShape body).height ≤ ((bodyShape body).links + 1) * (10 * maxNesting)) ∧
    (∀ d, parseDefinition source = .ok d → d.shape.levels ≤ 10 * maxNesting ∧
      d.shape.links ≤ d.shape.height ∧
      d.shape.height ≤ (d.shape.links + 1) * (10 * maxNesting)) ∧
    ∀ factor, (∃ other body, parseBody other = .ok body ∧
        factor * maxNesting < (bodyShape body).height) ∧
      ∃ other d, parseDefinition other = .ok d ∧ factor * maxNesting < d.shape.height := by
  have bounded {shape : Shape} (h : shape.levels ≤ Parser.levelHeight * maxNesting + 1) :
      shape.levels ≤ 10 * maxNesting ∧ shape.links ≤ shape.height ∧
        shape.height ≤ (shape.links + 1) * (10 * maxNesting) := by
    have hlevels : shape.levels ≤ 10 * maxNesting := h.trans (by decide)
    exact ⟨hlevels, shape.links_le_height, shape.height_le.trans (Nat.mul_le_mul_left _ hlevels)⟩
  refine ⟨fun body h => bounded (Parser.levels_of_parseBody h),
    fun d h => bounded (Parser.levels_of_parseDefinition h), fun factor => ⟨?_, ?_⟩⟩
  · exact ⟨_, _, Parser.parseBody_sum _, Parser.lt_height_sum (factor * maxNesting)⟩
  · have hparse := (@parseDefinition_writtenDefinition [] _ _ (by simp)).mpr
      ⟨_, Parser.parseBody_sum (factor * maxNesting), rfl⟩
    exact ⟨_, _, hparse, Parser.lt_height_sum (factor * maxNesting)⟩

theorem height_bounded_countdown : parseBody (bodyText countdown) = .ok countdown ∧
    (bodyShape countdown).levels ≤ 10 * maxNesting ∧
    (bodyShape countdown).links ≤ (bodyShape countdown).height ∧
    (bodyShape countdown).height ≤ ((bodyShape countdown).links + 1) * (10 * maxNesting) :=
  have h := Parser.parseBody_bodyText countdown_formed countdown_writable (by decide)
  ⟨h, (height_bounded (bodyText countdown)).1 _ h⟩

end Stencil.Script
