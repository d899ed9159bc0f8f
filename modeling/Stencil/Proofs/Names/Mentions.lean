import Stencil.Script.Names

/-!
# Names — where a script mentions names

`mentions` lists every place of a tree where a name stands, with the part it plays there; an
assignment to something that cannot be assigned to is listed as `stray`.  What a script declares,
assigns or reads, in nested functions too, is a statement about this list.

* `Expr.mem_uses`: the names bound around a place only take names away.  So `uses []` says what a
  tree uses, whatever is bound around it.
* `mentioned_of_mem_usesBody`: a use is a reading or an assignment.
* `mentioned_of_mem_hoistedNames`, `mentioned_of_mem_lexicalNames`: what a body binds is declared
  in it.
-/

namespace Stencil.Script

/-- A place where a name stands, with its part. -/
inductive Mention where
  | read (name : String)
  | target (name : String)
  | declared (kind : DeclKind) (name : String)
  | parameter (name : String)
  | named (name : String)
  | stray
  deriving DecidableEq, Repr

/-- What an assignment mentions besides the parts of its target. -/
def Expr.asTarget : Expr → List Mention
  | .name word => [.target word]
  | .member _ _ => []
  | .index _ _ => []
  | _ => [.stray]

/-- What the variable of a loop mentions. -/
def LoopBinding.mentions (binding : LoopBinding) : List Mention :=
  match binding.kind with
  | some kind => [.declared kind binding.name]
  | none => [.target binding.name]

mutual

/-- The mentions in an expression. -/
def Expr.mentions : Expr → List Mention
  | .number _ => []
  | .string _ => []
  | .bool _ => []
  | .null => []
  | .name word => [.read word]
  | .array items => mentionsAll items
  | .object fields => mentionsFields fields
  | .function definition => definition.mentions
  | .member object _ => object.mentions
  | .index object key => object.mentions ++ key.mentions
  | .call callee arguments => callee.mentions ++ mentionsAll arguments
  | .unary _ operand => operand.mentions
  | .update _ _ target => target.asTarget ++ target.mentions
  | .binary _ left right => left.mentions ++ right.mentions
  | .logical _ left right => left.mentions ++ right.mentions
  | .conditional test yes no => test.mentions ++ yes.mentions ++ no.mentions
  | .assign _ target value => target.asTarget ++ target.mentions ++ value.mentions

/-- The mentions in several expressions. -/
def mentionsAll : List Expr → List Mention
  | [] => []
  | e :: rest => e.mentions ++ mentionsAll rest

/-- The mentions in the values of fields. -/
def mentionsFields : List (String × Expr) → List Mention
  | [] => []
  | (_, value) :: rest => value.mentions ++ mentionsFields rest

/-- The mentions in a function. -/
def Definition.mentions : Definition → List Mention
  | .mk name parameters rest body =>
    name.toList.map .named ++ (parameters ++ rest.toList).map .parameter ++ mentionsBody body

/-- The mentions in a statement. -/
def Stmt.mentions : Stmt → List Mention
  | .expr e => e.mentions
  | .declare kind bindings => mentionsBindings kind bindings
  | .function definition => .named (definition.name.getD "") :: definition.mentions
  | .block body => mentionsBody body
  | .branch test yes no => test.mentions ++ yes.mentions ++ mentionsStmt no
  | .loop init test update body =>
    mentionsStmt init ++ mentionsOption test ++ mentionsOption update ++ body.mentions
  | .forIn binding subject body => binding.mentions ++ subject.mentions ++ body.mentions
  | .forOf binding subject body => binding.mentions ++ subject.mentions ++ body.mentions
  | .whileLoop test body => test.mentions ++ body.mentions
  | .break => []
  | .continue => []
  | .return value => mentionsOption value
  | .empty => []

/-- The mentions in an expression that may be absent. -/
def mentionsOption : Option Expr → List Mention
  | none => []
  | some e => e.mentions

/-- The mentions in a statement that may be absent. -/
def mentionsStmt : Option Stmt → List Mention
  | none => []
  | some s => s.mentions

/-- The mentions in a declaration of the given kind. -/
def mentionsBindings (kind : DeclKind) : List (String × Option Expr) → List Mention
  | [] => []
  | (name, value) :: rest =>
    .declared kind name :: (mentionsOption value ++ mentionsBindings kind rest)

/-- The mentions in several statements. -/
def mentionsBody : List Stmt → List Mention
  | [] => []
  | s :: rest => s.mentions ++ mentionsBody rest

end

/-- The name that is mentioned. -/
def Mention.name? : Mention → Option String
  | .read name => some name
  | .target name => some name
  | .declared _ name => some name
  | .parameter name => some name
  | .named name => some name
  | .stray => none

/-- The names among mentions. -/
def mentioned (mentions : List Mention) : List String :=
  mentions.filterMap Mention.name?

/-- Whether a mention of a name declares or assigns it. -/
def Mention.writes : Mention → String → Prop
  | .read _, _ => False
  | m, word => m.name? = some word

/-- Whether a mention is a declaration with `let` or `const`. -/
def Mention.isLexical : Mention → String → Prop
  | .declared .let name, word => name = word
  | .declared .const name, word => name = word
  | _, _ => False

/-- Whether a function declares a name with `let` or `const`, itself or in a function inside. -/
def Definition.DeclaresLexically (d : Definition) (name : String) : Prop :=
  ∃ m ∈ d.mentions, m.isLexical name

/-- The same function without a name of its own. -/
def Definition.unnamed (d : Definition) : Definition :=
  ⟨none, d.parameters, d.rest, d.body⟩

theorem Definition.mentions_eq (d : Definition) :
    d.mentions = d.name.toList.map .named ++ (d.parameters ++ d.rest.toList).map .parameter
      ++ mentionsBody d.body := by
  cases d
  rfl

theorem Definition.uses_eq (bound : List String) (d : Definition) :
    d.uses bound = usesBody (d.bound ++ bound) d.body := by
  cases d
  rfl

theorem Definition.mem_bound {d : Definition} {n : String} :
    n ∈ d.bound ↔ n ∈ lexicalNames d.body ∨ n ∈ d.parameters ++ d.rest.toList ∨
      d.name = some n ∨ n ∈ hoistedNames d.body := by
  simp only [Definition.bound, List.mem_append, Option.mem_toList]
  constructor
  · rintro ((((h | h) | h) | h) | h) <;> simp [h]
  · rintro (h | (h | h) | h | h) <;> simp [h]

/-! ### Uses under bound names -/

section
variable (x : String)

private theorem mem_uses_name (bound : List String) (word : String) :
    x ∈ (Expr.name word).uses bound ↔ x = word ∧ word ∉ bound := by
  simp only [Expr.uses]
  split <;> simp_all

theorem mem_usesLoop (bound : List String) (binding : LoopBinding) :
    x ∈ usesLoop bound binding ↔ x ∈ usesLoop [] binding ∧ x ∉ bound := by
  simp only [usesLoop]
  cases binding.kind <;> simp
  · by_cases h : binding.name ∈ bound <;> simp [h]
    · rintro rfl; exact h
    · rintro rfl; exact h

mutual

/-- **Uses under bound names.**  The uses in a tree under bound names are its uses under none that
are not bound. -/
theorem Expr.mem_uses (bound : List String) :
    ∀ e : Expr, x ∈ e.uses bound ↔ x ∈ e.uses [] ∧ x ∉ bound
  | .number _ => by simp [Expr.uses]
  | .string _ => by simp [Expr.uses]
  | .bool _ => by simp [Expr.uses]
  | .null => by simp [Expr.uses]
  | .name word => by
      rw [mem_uses_name, mem_uses_name]
      constructor
      · rintro ⟨rfl, h⟩; simp [h]
      · rintro ⟨⟨rfl, -⟩, h⟩; exact ⟨rfl, h⟩
  | .array items => by simp only [Expr.uses]; exact mem_usesAll bound items
  | .object fields => by simp only [Expr.uses]; exact mem_usesFields bound fields
  | .function definition => by simp only [Expr.uses]; exact Definition.mem_uses bound definition
  | .member object _ => by simp only [Expr.uses]; exact Expr.mem_uses bound object
  | .index object key => by
      simp only [Expr.uses, List.mem_append, Expr.mem_uses bound object, Expr.mem_uses bound key,
        or_and_right]
  | .call callee arguments => by
      simp only [Expr.uses, List.mem_append, Expr.mem_uses bound callee,
        mem_usesAll bound arguments, or_and_right]
  | .unary _ operand => by simp only [Expr.uses]; exact Expr.mem_uses bound operand
  | .update _ _ target => by simp only [Expr.uses]; exact Expr.mem_uses bound target
  | .binary _ left right => by
      simp only [Expr.uses, List.mem_append, Expr.mem_uses bound left, Expr.mem_uses bound right,
        or_and_right]
  | .logical _ left right => by
      simp only [Expr.uses, List.mem_append, Expr.mem_uses bound left, Expr.mem_uses bound right,
        or_and_right]
  | .conditional test yes no => by
      simp only [Expr.uses, List.mem_append, Expr.mem_uses bound test, Expr.mem_uses bound yes,
        Expr.mem_uses bound no, or_and_right]
  | .assign _ target value => by
      simp only [Expr.uses, List.mem_append, Expr.mem_uses bound target,
        Expr.mem_uses bound value, or_and_right]

theorem mem_usesAll (bound : List String) :
    ∀ es : List Expr, x ∈ usesAll bound es ↔ x ∈ usesAll [] es ∧ x ∉ bound
  | [] => by simp [usesAll]
  | e :: rest => by
      simp only [usesAll, List.mem_append, Expr.mem_uses bound e, mem_usesAll bound rest,
        or_and_right]

theorem mem_usesFields (bound : List String) :
    ∀ fields : List (String × Expr),
      x ∈ usesFields bound fields ↔ x ∈ usesFields [] fields ∧ x ∉ bound
  | [] => by simp [usesFields]
  | (_, value) :: rest => by
      simp only [usesFields, List.mem_append, Expr.mem_uses bound value,
        mem_usesFields bound rest, or_and_right]

theorem Definition.mem_uses (bound : List String) :
    ∀ d : Definition, x ∈ d.uses bound ↔ x ∈ d.uses [] ∧ x ∉ bound
  | .mk name parameters rest body => by
      simp only [Definition.uses]
      rw [mem_usesBody (_ ++ bound) body, mem_usesBody (_ ++ []) body]
      simp only [List.mem_append, List.append_nil, not_or, and_assoc]

theorem Stmt.mem_uses (bound : List String) :
    ∀ s : Stmt, x ∈ s.uses bound ↔ x ∈ s.uses [] ∧ x ∉ bound
  | .expr e => by simp only [Stmt.uses]; exact Expr.mem_uses bound e
  | .declare _ bindings => by simp only [Stmt.uses]; exact mem_usesBindings bound bindings
  | .function definition => by simp only [Stmt.uses]; exact Definition.mem_uses bound definition
  | .block body => by
      simp only [Stmt.uses]
      rw [mem_usesBody (_ ++ bound) body, mem_usesBody (_ ++ []) body]
      simp only [List.mem_append, List.append_nil, not_or, and_assoc]
  | .branch test yes no => by
      simp only [Stmt.uses, List.mem_append, Expr.mem_uses bound test, Stmt.mem_uses bound yes,
        mem_usesStmt bound no, or_and_right]
  | .loop init test update body => by
      simp only [Stmt.uses, List.mem_append]
      rw [mem_usesStmt (_ ++ bound) init, mem_usesOption (_ ++ bound) test,
        mem_usesOption (_ ++ bound) update, Stmt.mem_uses (_ ++ bound) body,
        mem_usesStmt (_ ++ []) init, mem_usesOption (_ ++ []) test,
        mem_usesOption (_ ++ []) update, Stmt.mem_uses (_ ++ []) body]
      simp only [List.mem_append, List.append_nil, not_or, ← or_and_right, and_assoc]
  | .forIn binding subject body => by
      simp only [Stmt.uses, List.mem_append]
      rw [mem_usesLoop x bound, Expr.mem_uses bound subject, Stmt.mem_uses (_ ++ bound) body,
        Stmt.mem_uses (_ ++ []) body]
      simp only [List.mem_append, List.append_nil, not_or, ← and_assoc, ← or_and_right]
  | .forOf binding subject body => by
      simp only [Stmt.uses, List.mem_append]
      rw [mem_usesLoop x bound, Expr.mem_uses bound subject, Stmt.mem_uses (_ ++ bound) body,
        Stmt.mem_uses (_ ++ []) body]
      simp only [List.mem_append, List.append_nil, not_or, ← and_assoc, ← or_and_right]
  | .whileLoop test body => by
      simp only [Stmt.uses, List.mem_append, Expr.mem_uses bound test, Stmt.mem_uses bound body,
        or_and_right]
  | .break => by simp [Stmt.uses]
  | .continue => by simp [Stmt.uses]
  | .return value => by simp only [Stmt.uses]; exact mem_usesOption bound value
  | .empty => by simp [Stmt.uses]

theorem mem_usesOption (bound : List String) :
    ∀ e : Option Expr, x ∈ usesOption bound e ↔ x ∈ usesOption [] e ∧ x ∉ bound
  | none => by simp [usesOption]
  | some e => by simp only [usesOption]; exact Expr.mem_uses bound e

theorem mem_usesStmt (bound : List String) :
    ∀ s : Option Stmt, x ∈ usesStmt bound s ↔ x ∈ usesStmt [] s ∧ x ∉ bound
  | none => by simp [usesStmt]
  | some s => by simp only [usesStmt]; exact Stmt.mem_uses bound s

theorem mem_usesBindings (bound : List String) :
    ∀ bindings : List (String × Option Expr),
      x ∈ usesBindings bound bindings ↔ x ∈ usesBindings [] bindings ∧ x ∉ bound
  | [] => by simp [usesBindings]
  | (_, value) :: rest => by
      simp only [usesBindings, List.mem_append, mem_usesOption bound value,
        mem_usesBindings bound rest, or_and_right]

theorem mem_usesBody (bound : List String) :
    ∀ body : List Stmt, x ∈ usesBody bound body ↔ x ∈ usesBody [] body ∧ x ∉ bound
  | [] => by simp [usesBody]
  | s :: rest => by
      simp only [usesBody, List.mem_append, Stmt.mem_uses bound s, mem_usesBody bound rest,
        or_and_right]

end

end

/-! ### What is used is mentioned -/

@[simp] theorem mentioned_append (l m : List Mention) :
    mentioned (l ++ m) = mentioned l ++ mentioned m :=
  List.filterMap_append

theorem mem_mentioned {n : String} {mentions : List Mention} :
    n ∈ mentioned mentions ↔ ∃ m ∈ mentions, m.name? = some n :=
  List.mem_filterMap

section
variable {x : String}

theorem LoopBinding.mem_mentioned_of_mem_usesLoop {binding : LoopBinding}
    (h : x ∈ usesLoop [] binding) : x ∈ mentioned binding.mentions := by
  obtain ⟨kind, name⟩ := binding
  cases kind with
  | none => simpa [usesLoop, LoopBinding.mentions, mentioned, Mention.name?] using h
  | some kind => simp [usesLoop] at h

mutual

/-- **What is used is mentioned.** -/
theorem Expr.mem_mentioned_of_mem_uses : ∀ e : Expr, x ∈ e.uses [] → x ∈ mentioned e.mentions
  | .number _, h => by simp [Expr.uses] at h
  | .string _, h => by simp [Expr.uses] at h
  | .bool _, h => by simp [Expr.uses] at h
  | .null, h => by simp [Expr.uses] at h
  | .name word, h => by
      simpa [Expr.uses, Expr.mentions, mentioned, Mention.name?] using h
  | .array items, h => by
      simp only [Expr.uses, Expr.mentions] at h ⊢
      exact mem_mentioned_of_mem_usesAll items h
  | .object fields, h => by
      simp only [Expr.uses, Expr.mentions] at h ⊢
      exact mem_mentioned_of_mem_usesFields fields h
  | .function definition, h => by
      simp only [Expr.uses, Expr.mentions] at h ⊢
      exact Definition.mem_mentioned_of_mem_uses definition h
  | .member object _, h => by
      simp only [Expr.uses, Expr.mentions] at h ⊢
      exact Expr.mem_mentioned_of_mem_uses object h
  | .index object key, h => by
      simp only [Expr.uses, Expr.mentions, mentioned_append, List.mem_append] at h ⊢
      exact h.imp (Expr.mem_mentioned_of_mem_uses object) (Expr.mem_mentioned_of_mem_uses key)
  | .call callee arguments, h => by
      simp only [Expr.uses, Expr.mentions, mentioned_append, List.mem_append] at h ⊢
      exact h.imp (Expr.mem_mentioned_of_mem_uses callee) (mem_mentioned_of_mem_usesAll arguments)
  | .unary _ operand, h => by
      simp only [Expr.uses, Expr.mentions] at h ⊢
      exact Expr.mem_mentioned_of_mem_uses operand h
  | .update _ _ target, h => by
      simp only [Expr.uses, Expr.mentions, mentioned_append, List.mem_append] at h ⊢
      exact .inr (Expr.mem_mentioned_of_mem_uses target h)
  | .binary _ left right, h => by
      simp only [Expr.uses, Expr.mentions, mentioned_append, List.mem_append] at h ⊢
      exact h.imp (Expr.mem_mentioned_of_mem_uses left) (Expr.mem_mentioned_of_mem_uses right)
  | .logical _ left right, h => by
      simp only [Expr.uses, Expr.mentions, mentioned_append, List.mem_append] at h ⊢
      exact h.imp (Expr.mem_mentioned_of_mem_uses left) (Expr.mem_mentioned_of_mem_uses right)
  | .conditional test yes no, h => by
      simp only [Expr.uses, Expr.mentions, mentioned_append, List.mem_append] at h ⊢
      exact h.imp (Or.imp (Expr.mem_mentioned_of_mem_uses test)
        (Expr.mem_mentioned_of_mem_uses yes)) (Expr.mem_mentioned_of_mem_uses no)
  | .assign _ target value, h => by
      simp only [Expr.uses, Expr.mentions, mentioned_append, List.mem_append] at h ⊢
      exact h.imp (fun h => .inr (Expr.mem_mentioned_of_mem_uses target h))
        (Expr.mem_mentioned_of_mem_uses value)

theorem mem_mentioned_of_mem_usesAll :
    ∀ es : List Expr, x ∈ usesAll [] es → x ∈ mentioned (mentionsAll es)
  | [], h => by simp [usesAll] at h
  | e :: rest, h => by
      simp only [usesAll, mentionsAll, mentioned_append, List.mem_append] at h ⊢
      exact h.imp (Expr.mem_mentioned_of_mem_uses e) (mem_mentioned_of_mem_usesAll rest)

theorem mem_mentioned_of_mem_usesFields :
    ∀ fields : List (String × Expr),
      x ∈ usesFields [] fields → x ∈ mentioned (mentionsFields fields)
  | [], h => by simp [usesFields] at h
  | (_, value) :: rest, h => by
      simp only [usesFields, mentionsFields, mentioned_append, List.mem_append] at h ⊢
      exact h.imp (Expr.mem_mentioned_of_mem_uses value) (mem_mentioned_of_mem_usesFields rest)

theorem Definition.mem_mentioned_of_mem_uses :
    ∀ d : Definition, x ∈ d.uses [] → x ∈ mentioned d.mentions
  | .mk name parameters rest body, h => by
      simp only [Definition.uses, Definition.mentions, mentioned_append, List.mem_append] at h ⊢
      exact .inr (mem_mentioned_of_mem_usesBody body ((mem_usesBody x _ body).mp h).1)

theorem Stmt.mem_mentioned_of_mem_uses : ∀ s : Stmt, x ∈ s.uses [] → x ∈ mentioned s.mentions
  | .expr e, h => by
      simp only [Stmt.uses, Stmt.mentions] at h ⊢
      exact Expr.mem_mentioned_of_mem_uses e h
  | .declare kind bindings, h => by
      simp only [Stmt.uses, Stmt.mentions] at h ⊢
      exact mem_mentioned_of_mem_usesBindings kind bindings h
  | .function definition, h => by
      rw [Stmt.mentions, ← List.singleton_append]
      simp only [Stmt.uses, mentioned_append, List.mem_append] at h ⊢
      exact .inr (Definition.mem_mentioned_of_mem_uses definition h)
  | .block body, h => by
      simp only [Stmt.uses, Stmt.mentions] at h ⊢
      exact mem_mentioned_of_mem_usesBody body ((mem_usesBody x _ body).mp h).1
  | .branch test yes no, h => by
      simp only [Stmt.uses, Stmt.mentions, mentioned_append, List.mem_append] at h ⊢
      exact h.imp (Or.imp (Expr.mem_mentioned_of_mem_uses test)
        (Stmt.mem_mentioned_of_mem_uses yes)) (mem_mentioned_of_mem_usesStmt no)
  | .loop init test update body, h => by
      simp only [Stmt.uses, Stmt.mentions, mentioned_append, List.mem_append] at h ⊢
      rw [mem_usesStmt x (_ ++ []), mem_usesOption x (_ ++ []) test,
        mem_usesOption x (_ ++ []) update, Stmt.mem_uses x (_ ++ [])] at h
      refine h.imp (Or.imp (Or.imp ?_ ?_) ?_) ?_
      · exact fun h => mem_mentioned_of_mem_usesStmt init h.1
      · exact fun h => mem_mentioned_of_mem_usesOption test h.1
      · exact fun h => mem_mentioned_of_mem_usesOption update h.1
      · exact fun h => Stmt.mem_mentioned_of_mem_uses body h.1
  | .forIn binding subject body, h => by
      simp only [Stmt.uses, Stmt.mentions, mentioned_append, List.mem_append] at h ⊢
      rw [Stmt.mem_uses x (_ ++ [])] at h
      exact h.imp (Or.imp LoopBinding.mem_mentioned_of_mem_usesLoop
        (Expr.mem_mentioned_of_mem_uses subject))
        (fun h => Stmt.mem_mentioned_of_mem_uses body h.1)
  | .forOf binding subject body, h => by
      simp only [Stmt.uses, Stmt.mentions, mentioned_append, List.mem_append] at h ⊢
      rw [Stmt.mem_uses x (_ ++ [])] at h
      exact h.imp (Or.imp LoopBinding.mem_mentioned_of_mem_usesLoop
        (Expr.mem_mentioned_of_mem_uses subject))
        (fun h => Stmt.mem_mentioned_of_mem_uses body h.1)
  | .whileLoop test body, h => by
      simp only [Stmt.uses, Stmt.mentions, mentioned_append, List.mem_append] at h ⊢
      exact h.imp (Expr.mem_mentioned_of_mem_uses test) (Stmt.mem_mentioned_of_mem_uses body)
  | .break, h => by simp [Stmt.uses] at h
  | .continue, h => by simp [Stmt.uses] at h
  | .return value, h => by
      simp only [Stmt.uses, Stmt.mentions] at h ⊢
      exact mem_mentioned_of_mem_usesOption value h
  | .empty, h => by simp [Stmt.uses] at h

theorem mem_mentioned_of_mem_usesOption :
    ∀ e : Option Expr, x ∈ usesOption [] e → x ∈ mentioned (mentionsOption e)
  | none, h => by simp [usesOption] at h
  | some e, h => by
      simp only [usesOption, mentionsOption] at h ⊢
      exact Expr.mem_mentioned_of_mem_uses e h

theorem mem_mentioned_of_mem_usesStmt :
    ∀ s : Option Stmt, x ∈ usesStmt [] s → x ∈ mentioned (mentionsStmt s)
  | none, h => by simp [usesStmt] at h
  | some s, h => by
      simp only [usesStmt, mentionsStmt] at h ⊢
      exact Stmt.mem_mentioned_of_mem_uses s h

theorem mem_mentioned_of_mem_usesBindings (kind : DeclKind) :
    ∀ bindings : List (String × Option Expr),
      x ∈ usesBindings [] bindings → x ∈ mentioned (mentionsBindings kind bindings)
  | [], h => by simp [usesBindings] at h
  | (name, value) :: rest, h => by
      rw [mentionsBindings, ← List.singleton_append]
      simp only [usesBindings, mentioned_append, List.mem_append] at h ⊢
      exact .inr (h.imp (mem_mentioned_of_mem_usesOption value)
        (mem_mentioned_of_mem_usesBindings kind rest))

theorem mem_mentioned_of_mem_usesBody :
    ∀ body : List Stmt, x ∈ usesBody [] body → x ∈ mentioned (mentionsBody body)
  | [], h => by simp [usesBody] at h
  | s :: rest, h => by
      simp only [usesBody, mentionsBody, mentioned_append, List.mem_append] at h ⊢
      exact h.imp (Stmt.mem_mentioned_of_mem_uses s) (mem_mentioned_of_mem_usesBody rest)

end

end

/-! ### What is bound is declared -/

theorem declared_mem_mentionsBindings {kind : DeclKind} {name : String} :
    ∀ {bindings : List (String × Option Expr)}, name ∈ bindings.map Prod.fst →
      .declared kind name ∈ mentionsBindings kind bindings
  | (_, value) :: rest, h => by
      rw [mentionsBindings]
      rcases List.mem_cons.mp h with rfl | h
      · exact List.mem_cons_self
      · exact List.mem_cons_of_mem _
          (List.mem_append_right _ (declared_mem_mentionsBindings h))

/-- What a statement binds in its block is declared there with `let` or `const`. -/
theorem Stmt.isLexical_of_mem_lexical {s : Stmt} {name : String} (h : name ∈ s.lexical) :
    ∃ m ∈ s.mentions, m.isLexical name := by
  cases s with
  | declare kind bindings =>
      cases kind with
      | var => simp [Stmt.lexical] at h
      | «let» => exact ⟨.declared .let name, declared_mem_mentionsBindings h, rfl⟩
      | const => exact ⟨.declared .const name, declared_mem_mentionsBindings h, rfl⟩
  | _ => simp [Stmt.lexical] at h

theorem isLexical_of_mem_lexicalNames {name : String} :
    ∀ {body : List Stmt}, name ∈ lexicalNames body → ∃ m ∈ mentionsBody body, m.isLexical name
  | s :: rest, h => by
      rw [lexicalNames, List.flatMap_cons, List.mem_append] at h
      rcases h with h | h
      · obtain ⟨m, hm, hl⟩ := Stmt.isLexical_of_mem_lexical h
        exact ⟨m, List.mem_append_left _ hm, hl⟩
      · obtain ⟨m, hm, hl⟩ := isLexical_of_mem_lexicalNames h
        exact ⟨m, List.mem_append_right _ hm, hl⟩

/-- Whether a mention declares a name for the whole function. -/
def Mention.isHoisted : Mention → String → Prop
  | .declared .var name, word => name = word
  | .named name, word => name = word
  | _, _ => False

theorem LoopBinding.isHoisted_of_mem_loopHoisted {binding : LoopBinding} {name : String}
    (h : name ∈ loopHoisted binding) : ∃ m ∈ binding.mentions, m.isHoisted name := by
  obtain ⟨kind, word⟩ := binding
  rw [loopHoisted] at h
  split at h
  · rename_i hk
    obtain rfl : kind = some .var := hk
    obtain rfl := List.mem_singleton.mp h
    exact ⟨_, List.mem_singleton_self _, rfl⟩
  · cases h

theorem Definition.isHoisted_of_mem_name {d : Definition} {name : String}
    (h : name ∈ d.name.toList) : ∃ m ∈ d.mentions, m.isHoisted name := by
  rw [d.mentions_eq]
  exact ⟨.named name, List.mem_append_left _ (List.mem_append_left _ (List.mem_map_of_mem h)), rfl⟩

private theorem exists_mem_append_left {P : Mention → Prop} {l m : List Mention}
    (h : ∃ x ∈ l, P x) : ∃ x ∈ l ++ m, P x := by
  obtain ⟨x, hx, hP⟩ := h
  exact ⟨x, List.mem_append_left _ hx, hP⟩

private theorem exists_mem_append_right {P : Mention → Prop} {l m : List Mention}
    (h : ∃ x ∈ m, P x) : ∃ x ∈ l ++ m, P x := by
  obtain ⟨x, hx, hP⟩ := h
  exact ⟨x, List.mem_append_right _ hx, hP⟩

section
variable {name : String}

mutual

/-- What a statement binds for the whole function is declared in it as such. -/
theorem Stmt.isHoisted_of_mem_hoisted :
    ∀ s : Stmt, name ∈ s.hoisted → ∃ m ∈ s.mentions, m.isHoisted name
  | .declare .var bindings, h => ⟨.declared .var name, declared_mem_mentionsBindings h, rfl⟩
  | .function definition, h => by
      rw [Stmt.mentions, ← List.singleton_append]
      exact exists_mem_append_right (Definition.isHoisted_of_mem_name h)
  | .block body, h => isHoisted_of_mem_hoistedNames body h
  | .branch _ yes no, h => by
      rcases List.mem_append.mp h with h | h
      · exact exists_mem_append_left
          (exists_mem_append_right (Stmt.isHoisted_of_mem_hoisted yes h))
      · exact exists_mem_append_right (isHoisted_of_mem_hoistedIn no h)
  | .loop init _ _ body, h => by
      rcases List.mem_append.mp h with h | h
      · exact exists_mem_append_left (exists_mem_append_left
          (exists_mem_append_left (isHoisted_of_mem_hoistedIn init h)))
      · exact exists_mem_append_right (Stmt.isHoisted_of_mem_hoisted body h)
  | .forIn binding _ body, h => by
      rcases List.mem_append.mp h with h | h
      · exact exists_mem_append_left
          (exists_mem_append_left (LoopBinding.isHoisted_of_mem_loopHoisted h))
      · exact exists_mem_append_right (Stmt.isHoisted_of_mem_hoisted body h)
  | .forOf binding _ body, h => by
      rcases List.mem_append.mp h with h | h
      · exact exists_mem_append_left
          (exists_mem_append_left (LoopBinding.isHoisted_of_mem_loopHoisted h))
      · exact exists_mem_append_right (Stmt.isHoisted_of_mem_hoisted body h)
  | .whileLoop _ body, h => exists_mem_append_right (Stmt.isHoisted_of_mem_hoisted body h)
  | .expr _, h | .declare .let _, h | .declare .const _, h | .break, h | .continue, h | .return _, h
  | .empty, h => by simp [Stmt.hoisted] at h

theorem isHoisted_of_mem_hoistedIn :
    ∀ s : Option Stmt, name ∈ hoistedIn s → ∃ m ∈ mentionsStmt s, m.isHoisted name
  | none, h => by simp [hoistedIn] at h
  | some s, h => Stmt.isHoisted_of_mem_hoisted s h

theorem isHoisted_of_mem_hoistedNames :
    ∀ body : List Stmt, name ∈ hoistedNames body → ∃ m ∈ mentionsBody body, m.isHoisted name
  | [], h => by simp [hoistedNames] at h
  | s :: rest, h => by
      rw [hoistedNames, List.mem_append] at h
      rcases h with h | h
      · exact exists_mem_append_left (Stmt.isHoisted_of_mem_hoisted s h)
      · exact exists_mem_append_right (isHoisted_of_mem_hoistedNames rest h)

end

end

end Stencil.Script
