import Stencil.Proofs.Compile.Closed
import Stencil.Proofs.Runs.Declared

/-!
# Compile — where bindings collide with declarations

Without a name for the data, a template's function binds every name that it takes from outside
before its body runs.  A name that the body declares is not among them, so the two should never
meet.  They do where a declaration with `let` or `const` stands without braces as the branch of a
choice or the body of a loop: it binds in the scope around, but is not counted among the names of
that scope.

`clash_of_alreadyDeclared`: this, or a block or nested function that binds a name twice by itself,
is behind every run that fails because a name taken from the data is declared already.
-/

namespace Stencil
open Script

namespace Template

theorem lexicalNames_bindings (p : String) (names : List String) (body : List Stmt) :
    lexicalNames (bindingStatements p names ++ body) = lexicalNames body := by
  simp only [lexicalNames, List.flatMap_append, bindingStatements]
  cases names.isEmpty <;> rfl

theorem clashesBody_bindings (p : String) (names : List String) :
    clashesBody (bindingStatements p names) = [] := by
  have members : ∀ names : List String, clashesBindings (names.map (memberBinding p)) = [] := by
    intro names
    induction names with
    | nil => rfl
    | cons w names ih => rw [List.map_cons, memberBinding, clashesBindings, ih]; rfl
  rw [bindingStatements]
  cases names.isEmpty with
  | true => rfl
  | false =>
      rw [if_neg Bool.false_ne_true]
      simp only [defaultStatement, clashesBody, Stmt.clashes, Expr.clashes, clashesFields, members,
        List.append_nil]

/-- A name that a function takes from outside clashes in it with its binding only if it clashes in
what the function holds. -/
theorem clear_boundFunction {p n : String} {body : List Stmt}
    (hn : n ∈ freeNames (functionOf p body)) (h : Clear n (clashesBody body)) :
    Clear n (boundFunction p body).clashes := by
  have hlex : n ∉ lexicalNames body := fun hl => by
    have hu := (mem_freeNames.mp hn).1
    rw [Definition.uses_eq, List.append_nil] at hu
    exact ((mem_usesBody n _ _).mp hu).2 (Definition.mem_bound.mpr (.inl hl))
  rw [Definition.clashes_eq, clear_append, boundFunction, functionOf, Definition.body,
    clashesBody_append, clashesBody_bindings, List.nil_append]
  refine ⟨fun c hc he => hlex ?_, h⟩
  obtain ⟨m, hm, rfl⟩ := List.mem_map.mp hc
  obtain rfl : m = n := he
  rw [Definition.repeats, Definition.body, lexicalNames_bindings] at hm
  rcases List.mem_append.mp hm with hm | hm
  · exact repeats_subset hm
  · exact (List.mem_filter.mp hm).1

/-- **Where bindings collide with declarations.**  A template without a name for its data fails
because a name that it takes from the data is declared already only if its body declares the name
with `let` or `const` without braces, or declares it more than once in one block, loop header or
nested function. -/
theorem clash_of_alreadyDeclared {settings : Settings} (h : settings.dataName = none)
    {text : String} {t : Template} (hc : compile settings text = .ok t) {d : Definition}
    (hd : build dataParameter (Body.ofTemplate (pieces settings text)) = .ok d) {n : String}
    (hn : n ∈ freeNames d) {steps : Nat} {data : Json.Document}
    (hf : t.render steps data = .error (.fault (.alreadyDeclared n))) :
    .unbraced n ∈ clashesBody d.body ∨ .repeated n ∈ clashesBody d.body := by
  rw [compile_default h, hd] at hc
  cases hc
  obtain ⟨hp, stmts, hparse, rfl⟩ := build_eq_ok.mp hd
  have hname : n ≠ "" := by
    rintro rfl
    have hformed := formed_functionOf hp (formed_of_parseBody hparse)
    exact absurd (isName_of_mem_freeNames hformed hn) (by decide)
  refine Classical.byContradiction fun hno => ?_
  rw [not_or, ← clear_iff] at hno
  exact not_alreadyDeclared_of_apply hname (clear_boundFunction hn hno) steps data hf

/-- A template whose declaration stands without braces. -/
def looseLet : String := "<% if (true) let x = 1; %><%= x %>"

/-- The declaration of `looseLet` collides with the binding of its name. -/
theorem looseLet_alreadyDeclared : Settings.standard.dataName = none ∧
    ∃ t d, compile .standard looseLet = .ok t ∧
      build dataParameter (Body.ofTemplate (pieces .standard looseLet)) = .ok d ∧
      "x" ∈ freeNames d ∧
      t.render 60 (.object []) = .error (.fault (.alreadyDeclared "x")) ∧
      (.unbraced "x" ∈ clashesBody d.body ∨ .repeated "x" ∈ clashesBody d.body) := by
  have hread : (readBody (bodyChars (pieces .standard looseLet))).toOption.map (fun stmts =>
      ((boundFunction dataParameter stmts).apply 60 (.object []),
        freeNames (functionOf dataParameter stmts))) =
      some (.error (.fault (.alreadyDeclared "x")), ["x"]) := by decide +kernel
  obtain ⟨stmts, source, -, hd, hc, hshown⟩ := compile_of_readBody hread rfl
  obtain ⟨hf, hfree⟩ := Prod.mk.inj hshown
  have hn : "x" ∈ freeNames (functionOf dataParameter stmts) := hfree ▸ List.mem_singleton_self _
  exact ⟨rfl, _, _, hc, hd, hn, hf, clash_of_alreadyDeclared rfl hc hd hn hf⟩

end Template

end Stencil
