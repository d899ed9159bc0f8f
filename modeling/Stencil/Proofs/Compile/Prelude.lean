import Stencil.Proofs.Compile.Closed
import Stencil.Proofs.Tokens.Quoted

/-!
# Compile — the declarations that come first

Every body that is made from a template begins with one declaration: of the output, of the value
written last, and of the function that writes.  So it does as text, as tokens and as trees
(`parseBody_ofTemplate`), and none of these names is taken from outside
(`not_free_of_declared`).
-/

namespace Stencil
open Script Script.Parser

namespace Template

/-! ### Tokens -/

/-- The tokens of what the function that writes does. -/
def appendMarks : List Mark :=
  [(.name "__p", false), (.sign .plusAssign, false), (.name "__a", false), (.sign .dot, false),
   (.name "join", false), (.sign .openParen, false), (.string "", false),
   (.sign .closeParen, false), (.sign .semicolon, false)]

/-- The tokens of the function that writes, from its parameter on. -/
def writerMarks : List Mark :=
  [(.sign .openParen, false), (.sign .ellipsis, false), (.name "__a", false),
   (.sign .closeParen, false), (.sign .openBrace, false)] ++ appendMarks ++
  [(.sign .closeBrace, false)]

/-- The tokens of the declaration that comes first. -/
def preludeMarks : List Mark :=
  [(.keyword .var, false), (.name "__t", false), (.sign .comma, false), (.name "__p", false),
   (.sign .assign, false), (.string "", false), (.sign .comma, false), (.name "print", false),
   (.sign .assign, false), (.keyword .function, false)] ++ writerMarks ++
  [(.sign .semicolon, false)]

theorem reads_prelude (rest : List Char) :
    Reads (Body.prelude.toList ++ rest) preludeMarks ('\n' :: rest) := by
  refine .cons rfl (.wordBefore 'v' ['a', 'r'] (by decide) (by decide) (by decide)) ?_
  refine .cons rfl (.space (.nameBefore "__t" (by decide) (by decide))) ?_
  refine .cons rfl (.signBefore .comma (by decide)) ?_
  refine .cons rfl (.nameBefore "__p" (by decide) (by decide)) ?_
  refine .cons rfl (.signBefore .assign (by decide)) ?_
  refine .cons rfl (.quoted [] _) ?_
  refine .cons rfl (.signBefore .comma (by decide)) ?_
  refine .cons rfl (.nameBefore "print" (by decide) (by decide)) ?_
  refine .cons rfl (.signBefore .assign (by decide)) ?_
  refine .cons rfl (.wordBefore 'f' "unction".toList (by decide) (by decide)
    (by decide)) ?_
  refine .cons rfl (.alone .openParen (by decide) _) ?_
  refine .cons rfl (.signBefore .ellipsis (by decide)) ?_
  refine .cons rfl (.nameBefore "__a" (by decide) (by decide)) ?_
  refine .cons rfl (.signBefore .closeParen (by decide)) ?_
  refine .cons rfl (.signBefore .openBrace (by decide)) ?_
  refine .cons rfl (.nameBefore "__p" (by decide) (by decide)) ?_
  refine .cons rfl (.signBefore .plusAssign (by decide)) ?_
  refine .cons rfl (.nameBefore "__a" (by decide) (by decide)) ?_
  refine .cons rfl (.signBefore .dot (by decide)) ?_
  refine .cons rfl (.nameBefore "join" (by decide) (by decide)) ?_
  refine .cons rfl (.alone .openParen (by decide) _) ?_
  refine .cons rfl (.quoted [] _) ?_
  refine .cons rfl (.signBefore .closeParen (by decide)) ?_
  refine .cons rfl (.signBefore .semicolon (by decide)) ?_
  refine .cons rfl (.signBefore .closeBrace (by decide)) ?_
  exact .cons rfl (.signBefore .semicolon (by decide)) .nil

/-! ### Trees -/

/-- The statement `__p += __a.join('');`. -/
def appendStatement : Stmt :=
  .expr (.assign (some .add) (.name "__p") (.call (.member (.name "__a") "join") [.string ""]))

/-- The function that writes. -/
def writer : Definition :=
  ⟨none, [], some "__a", [appendStatement]⟩

/-- The declaration that comes first. -/
def preludeStatement : Stmt :=
  .declare .var [("__t", none), ("__p", some (.string "")), ("print", some (.function writer))]

section
variable {bs rest : List Token} {n r : Nat}

/-- A string alone. -/
theorem gives_string {t : Token} {text : String} (ht : t.kind = .string text)
    (hr : EndsExpr (headKind rest)) :
    Gives False (levels n (r + 2)).assignment (t :: rest) (.string text) rest := by
  have operand : Gives False (levels n (r + 1)).unary (t :: rest) (.string text) rest := by
    refine .unaryBody ?_ ?_ ?_ (.postfixed (.primaryString ht) (.suffixesDone hr.operand)
      hr.operand) <;> rw [headKind, ht] <;> rfl
  exact operand.operand hr

variable (hn : 1 < n)
include hn

theorem gives_append {inLoop : Bool} (h : kinds bs = appendMarks.map Prod.fst) :
    Gives False ((levels n (r + 6)).statement inLoop) (bs ++ rest) appendStatement rest := by
  obtain ⟨n, rfl⟩ : ∃ m, n = m + 2 := ⟨n - 2, by omega⟩
  obtain ⟨t₁, bs, rfl, h₁, h⟩ := List.map_eq_cons_iff.mp h
  obtain ⟨t₂, bs, rfl, h₂, h⟩ := List.map_eq_cons_iff.mp h
  obtain ⟨t₃, bs, rfl, h₃, h⟩ := List.map_eq_cons_iff.mp h
  obtain ⟨t₄, bs, rfl, h₄, h⟩ := List.map_eq_cons_iff.mp h
  obtain ⟨t₅, bs, rfl, h₅, h⟩ := List.map_eq_cons_iff.mp h
  obtain ⟨t₆, bs, rfl, h₆, h⟩ := List.map_eq_cons_iff.mp h
  obtain ⟨t₇, bs, rfl, h₇, h⟩ := List.map_eq_cons_iff.mp h
  obtain ⟨t₈, bs, rfl, h₈, h⟩ := List.map_eq_cons_iff.mp h
  obtain ⟨t₉, bs, rfl, h₉, h⟩ := List.map_eq_cons_iff.mp h
  obtain rfl := List.map_eq_nil_iff.mp h
  have ends₂ : EndsOperand t₂.kind := by rw [h₂]; decide
  have ends₈ : EndsExpr t₈.kind := by rw [h₈]; exact endsExpr_sign (by decide)
  have ends₉ : EndsExpr t₉.kind := by rw [h₉]; exact endsExpr_sign (by decide)
  have target : Gives False (conditional (levels (n + 2) (r + 4)) (n + 2))
      (t₁ :: t₂ :: t₃ :: t₄ :: t₅ :: t₆ :: t₇ :: t₈ :: t₉ :: rest) (.name "__p")
      (t₂ :: t₃ :: t₄ :: t₅ :: t₆ :: t₇ :: t₈ :: t₉ :: rest) := by
    have hname : Gives False (infixed (levels (n + 2) (r + 4)) (n + 2) 0)
        (t₁ :: t₂ :: t₃ :: t₄ :: t₅ :: t₆ :: t₇ :: t₈ :: t₉ :: rest) (.name "__p")
        (t₂ :: t₃ :: t₄ :: t₅ :: t₆ :: t₇ :: t₈ :: t₉ :: rest) := .nameOperand h₁ ends₂
    refine .conditional (hname.infixed (fun k _ => ?_) (Nat.zero_le _)) ?_ <;>
      rw [headKind, h₂] <;> rfl
  have argument : Gives False (levels (n + 2) (r + 2)).assignment (t₇ :: t₈ :: t₉ :: rest)
      (.string "") (t₈ :: t₉ :: rest) := gives_string h₇ ends₈
  have call : Gives False (suffixes (levels (n + 2) (r + 2)) (n + 2) (n + 2) (.name "__a"))
      (t₄ :: t₅ :: t₆ :: t₇ :: t₈ :: t₉ :: rest)
      (.call (.member (.name "__a") "join") [.string ""]) (t₉ :: rest) :=
    .suffixesMember h₄ h₅ (.suffixesCall h₆ (by rw [headKind, h₇]; rfl) argument h₈ (by omega)
      (.suffixesDone ends₉.operand))
  have value : Gives False (levels (n + 2) (r + 4)).assignment
      (t₃ :: t₄ :: t₅ :: t₆ :: t₇ :: t₈ :: t₉ :: rest)
      (.call (.member (.name "__a") "join") [.string ""]) (t₉ :: rest) := by
    have hunary : Gives False (levels (n + 2) (r + 3)).unary
        (t₃ :: t₄ :: t₅ :: t₆ :: t₇ :: t₈ :: t₉ :: rest)
        (.call (.member (.name "__a") "join") [.string ""]) (t₉ :: rest) :=
      .unaryName h₃ call ends₉.operand
    exact hunary.operand ends₉
  exact .exprStatement h₁ (.assign target (by rw [h₂]; rfl) rfl value) (.semicolon h₉)

theorem gives_writer (h : kinds bs = writerMarks.map Prod.fst) :
    Gives False (definitionRest (levels n (r + 6)) n none) (bs ++ rest) writer rest := by
  obtain ⟨n, rfl⟩ : ∃ m, n = m + 2 := ⟨n - 2, by omega⟩
  rw [writerMarks, List.append_assoc, List.map_append, List.map_append] at h
  obtain ⟨first, more, rfl, hfirst, hmore⟩ := List.map_eq_append_iff.mp h
  obtain ⟨body, last, rfl, hbody, hlast⟩ := List.map_eq_append_iff.mp hmore
  obtain ⟨t₁, first, rfl, h₁, h⟩ := List.map_eq_cons_iff.mp hfirst
  obtain ⟨t₂, first, rfl, h₂, h⟩ := List.map_eq_cons_iff.mp h
  obtain ⟨t₃, first, rfl, h₃, h⟩ := List.map_eq_cons_iff.mp h
  obtain ⟨t₄, first, rfl, h₄, h⟩ := List.map_eq_cons_iff.mp h
  obtain ⟨t₅, first, rfl, h₅, h⟩ := List.map_eq_cons_iff.mp h
  obtain rfl := List.map_eq_nil_iff.mp h
  obtain ⟨t₆, rfl, h₆⟩ := List.map_eq_singleton_iff.mp hlast
  have stops : ((headKind (body ++ t₆ :: rest)).isSign .closeBrace ||
      (headKind (body ++ t₆ :: rest)).isStop) = false := by
    obtain ⟨t, body, rfl, ht, -⟩ := List.map_eq_cons_iff.mp hbody
    rw [List.cons_append, headKind, ht]
    rfl
  have none : Gives False (statements (levels (n + 2) (r + 6)) false (n + 1)) (t₆ :: rest) []
      (t₆ :: rest) := by
    rw [statements_succ]
    refine .peekKind ?_
    simp only [headKind, h₆]
    exact .pure
  have append : Gives False ((levels (n + 2) (r + 6)).statement false) (body ++ t₆ :: rest)
      appendStatement (t₆ :: rest) := gives_append (by omega) hbody
  rw [List.append_assoc, List.append_assoc]
  exact .definitionRest h₁ (.parametersRest h₂ h₃) h₄ h₅ (.statementsCons stops append none) h₆

/-- The function that writes, as a value. -/
theorem gives_writerValue {t : Token} (ht : t.kind = .keyword .function)
    (h : kinds bs = writerMarks.map Prod.fst) (hr : EndsExpr (headKind rest)) :
    Gives False (levels n (r + 8)).assignment (t :: (bs ++ rest)) (.function writer) rest := by
  have writes : Gives False (definitionRest (levels n (r + 6)) n none) (bs ++ rest) writer rest :=
    gives_writer hn h
  obtain ⟨u, bs, rfl, hu, -⟩ := List.map_eq_cons_iff.mp h
  have operand : Gives False (levels n (r + 7)).unary (t :: (u :: bs ++ rest)) (.function writer)
      rest := by
    refine .unaryBody ?_ ?_ ?_ (.postfixed (.primaryFunction ht hu writes)
      (.suffixesDone hr.operand) hr.operand) <;> rw [headKind, ht] <;> rfl
  exact operand.operand hr

/-- **The declaration that comes first as a tree**, before whatever comes then. -/
theorem gives_prelude {inLoop : Bool} (h : kinds bs = preludeMarks.map Prod.fst) (hn' : 2 < n) :
    Gives False ((levels n (r + 9)).statement inLoop) (bs ++ rest) preludeStatement rest := by
  obtain ⟨n, rfl⟩ : ∃ m, n = m + 3 := ⟨n - 3, by omega⟩
  rw [preludeMarks, List.append_assoc, List.map_append, List.map_append] at h
  obtain ⟨first, more, rfl, hfirst, hmore⟩ := List.map_eq_append_iff.mp h
  obtain ⟨body, last, rfl, hbody, hlast⟩ := List.map_eq_append_iff.mp hmore
  obtain ⟨t₁, first, rfl, h₁, h⟩ := List.map_eq_cons_iff.mp hfirst
  obtain ⟨t₂, first, rfl, h₂, h⟩ := List.map_eq_cons_iff.mp h
  obtain ⟨t₃, first, rfl, h₃, h⟩ := List.map_eq_cons_iff.mp h
  obtain ⟨t₄, first, rfl, h₄, h⟩ := List.map_eq_cons_iff.mp h
  obtain ⟨t₅, first, rfl, h₅, h⟩ := List.map_eq_cons_iff.mp h
  obtain ⟨t₆, first, rfl, h₆, h⟩ := List.map_eq_cons_iff.mp h
  obtain ⟨t₇, first, rfl, h₇, h⟩ := List.map_eq_cons_iff.mp h
  obtain ⟨t₈, first, rfl, h₈, h⟩ := List.map_eq_cons_iff.mp h
  obtain ⟨t₉, first, rfl, h₉, h⟩ := List.map_eq_cons_iff.mp h
  obtain ⟨t₁₀, first, rfl, h₁₀, h⟩ := List.map_eq_cons_iff.mp h
  obtain rfl := List.map_eq_nil_iff.mp h
  obtain ⟨t₁₁, rfl, h₁₁⟩ := List.map_eq_singleton_iff.mp hlast
  have ends₇ : EndsExpr t₇.kind := by rw [h₇]; exact endsExpr_sign (by decide)
  have ends₁₁ : EndsExpr t₁₁.kind := by rw [h₁₁]; exact endsExpr_sign (by decide)
  have writes : Gives False (levels (n + 3) (r + 8)).assignment (t₁₀ :: (body ++ t₁₁ :: rest))
      (.function writer) (t₁₁ :: rest) := gives_writerValue hn h₁₀ hbody ends₁₁
  have output : Gives False (levels (n + 3) (r + 8)).assignment
      (t₆ :: t₇ :: t₈ :: t₉ :: t₁₀ :: (body ++ t₁₁ :: rest)) (.string "")
      (t₇ :: t₈ :: t₉ :: t₁₀ :: (body ++ t₁₁ :: rest)) := gives_string h₆ ends₇
  rw [List.append_assoc, List.append_assoc]
  have comma : ∀ ts, (headKind (t₃ :: ts)).isSign .assign = false := fun ts => by
    rw [headKind, h₃]
    rfl
  refine .declareStatement h₁ rfl ?_ (.semicolon h₁₁)
  refine .bindingsCons (.bindingBare h₂ (comma _) (by decide)) h₃ ?_
  refine .bindingsCons (.binding h₄ h₅ output) h₇ ?_
  refine .bindingsLast (.binding h₈ h₉ writes) ?_
  rw [headKind, h₁₁]
  rfl

end

/-! ### Parsing -/

/-- **Bodies begin with their declaration.** -/
theorem parseBody_ofTemplate {pieces : List Piece} {stmts : List Stmt}
    (h : parseBody (Body.ofTemplate pieces) = .ok stmts) :
    ∃ rest, stmts = preludeStatement :: rest := by
  obtain ⟨ts, htokens, t, -, hrun⟩ := parseBody_eq_ok.mp h
  obtain ⟨ms, after, newline, hr, hover, hts⟩ := reads_of_tokens htokens
  rw [Body.ofTemplate, String.toList_append, String.toList_append, List.append_assoc] at hr
  obtain ⟨ms, rfl, -⟩ := (reads_prelude _).begins hr hover
  rw [List.append_assoc] at hts
  obtain ⟨bs, us, rfl, hbs, hus⟩ := List.map_eq_append_iff.mp hts
  have hlen : 2 < (bs ++ us).length := by
    have : bs.length = preludeMarks.length := by rw [← hbs, List.length_map]
    rw [List.length_append, this]
    exact Nat.lt_add_right _ (by decide)
  obtain ⟨t, bs, rfl, ht, -⟩ := List.map_eq_cons_iff.mp hbs
  have first : Gives False ((levels (t :: bs ++ us).length maxNesting).statement false)
      (t :: bs ++ us) preludeStatement us :=
    gives_prelude (by omega) (kinds_of_marks hbs) hlen
  generalize (t :: bs ++ us).length = n at *
  obtain ⟨n, rfl⟩ : ∃ m, n = m + 1 := ⟨n - 1, by omega⟩
  have hkind : t.kind = .keyword .var := congrArg Prod.fst ht
  rw [List.cons_append, run_statements_cons (by rw [hkind]; rfl)] at hrun
  obtain ⟨s, mid, hs, hrest⟩ := run_bind_ok hrun
  obtain ⟨others, mid', -, hpure⟩ := run_bind_ok hrest
  cases hs.symm.trans first.run
  cases hpure
  exact ⟨others, rfl⟩

/-- The names that the first declaration of every body binds. -/
def preludeNames : List String :=
  ["__t", "__p", "print"]

/-- **What templates never take from outside**: the names that their bodies begin with, the helper
object, and what the language binds. -/
theorem not_mem_freeNames {parameter : String} {pieces : List Piece} {d : Definition}
    (h : build parameter (Body.ofTemplate pieces) = .ok d) {n : String}
    (hn : n ∈ preludeNames ∨ n ∈ globalNames) : n ∉ freeNames d := by
  intro hm
  obtain ⟨hu, hg⟩ := mem_freeNames.mp hm
  obtain ⟨-, stmts, hparse, rfl⟩ := build_eq_ok.mp h
  obtain ⟨rest, rfl⟩ := parseBody_ofTemplate hparse
  rw [Definition.uses_eq, List.append_nil] at hu
  refine ((mem_usesBody n _ _).mp hu).2 (Definition.mem_bound.mpr (.inr (.inr (.inr ?_))))
  exact List.mem_append_left _ (hn.resolve_right hg)

end Template

end Stencil
