import Stencil.Proofs.Compile.Closed
import Stencil.Proofs.Runs.Helper
import Stencil.Proofs.Tokens.Ends

/-!
# Compile — templates from their source

The source of a compiled template is the text of a definition around the body.  It parses to the
function that the template has, but for the helper object, which is no parameter of it
(`parseDefinition_definitionText`).  So a template that never declares or assigns `_` renders as the
one that is made from its source (`render_ofSource`).
-/

namespace Stencil
open Script Script.Parser

namespace Template

/-! ### Definitions as tokens -/

/-- The tokens of `function(p)` and the brace after it. -/
def headerMarks (p : String) : List Mark :=
  [(.keyword .function, false), (.sign .openParen, false), (.name p, false),
   (.sign .closeParen, false), (.sign .openBrace, false)]

theorem reads_header {p : String} (hp : isName p = true) (rest : List Char) :
    Reads (("function(" ++ p ++ ")\x7b\n").toList ++ rest) (headerMarks p) ('\n' :: rest) := by
  simp only [String.toList_append, List.append_assoc]
  have word := Next.word (c := 'f') (l := ['u', 'n', 'c', 't', 'i', 'o', 'n'])
    (r := '(' :: (p.toList ++ (')' :: '\x7b' :: '\n' :: rest))) (by decide) (by decide)
    fun c hc => by cases hc; decide
  refine .cons rfl word (.cons rfl (.sign .openParen (endsSign_name hp _)) ?_)
  refine .cons rfl (.name hp fun c hc => by cases hc; decide) ?_
  refine .cons rfl (.sign .closeParen (r := '\x7b' :: '\n' :: rest) ?_) ?_
  · intro c hc
    cases hc
    decide
  refine .cons rfl (.sign .openBrace (r := '\n' :: rest) ?_) .nil
  intro c hc
  cases hc
  decide

/-- **Text in front of a body**: after a line end it reads as tokens of its own, and these parse as
statements of their own, whatever comes after. -/
structure Front (text : String) (marks : List Mark) (stmts : List Stmt) : Prop where
  reads : ∀ rest, Reads ('\n' :: (text.toList ++ rest)) marks ('\n' :: rest)
  gives : ∀ {bs rest after : List Token} {others : List Stmt} {n r rounds : Nat},
    kinds bs = marks.map Prod.fst → 0 < n → marks.length ≤ n →
    Gives False (statements (levels n (r + 4)) false rounds) rest others after →
    Gives False (statements (levels n (r + 4)) false (rounds + stmts.length)) (bs ++ rest)
      (stmts ++ others) after
  length_le : stmts.length ≤ marks.length

theorem Front.nothing : Front "" [] [] where
  reads rest := .nil
  gives hk _ _ h := by
    rw [List.map_eq_nil_iff.mp hk]
    exact h
  length_le := Nat.le_refl _

theorem Front.bindings {p : String} (hp : isName p = true) {names : List String}
    (hn : ∀ n ∈ names, isName n = true) :
    Front (bindings p names) ((.name p, true) :: (bindingMarks p names).tail)
      (bindingStatements p names) where
  reads rest := (reads_bindings hp hn rest).newline
  gives hk h0 hlen h :=
    gives_bindings hk h0 (Nat.le_trans (length_bindingMarks p names).1 hlen) h
  length_le := (length_bindingMarks p names).2

theorem commentsEnd_of_newline {cs : List Char} (h : cs.getLast? = some '\n') : CommentsEnd cs := by
  rintro rest ⟨before, rfl⟩
  cases hr : rest.getLast? with
  | none =>
      obtain rfl := List.getLast?_eq_none_iff.mp hr
      rw [List.getLast?_append] at h
      cases h
  | some c =>
      have hlast : (before ++ '/' :: '/' :: rest).getLast? = some c := by
        rw [List.getLast?_append, List.getLast?_cons, List.getLast?_cons, hr]
        rfl
      rw [hlast] at h
      exact List.mem_of_getLast? (Option.some.inj h ▸ hr)

/-- **The tokens of a definition** around a body that begins with a declaration. -/
theorem tokens_definitionText {p front body : String} {marks ms : List Mark} {before : List Stmt}
    {after : List Char} {newline : Bool} (hp : isName p = true) (hfront : Front front marks before)
    (hr : Reads body.toList ((.keyword .var, false) :: ms) after) (hover : Over after newline)
    (hend : CommentsEnd body.toList) :
    ∃ ts, tokens (definitionText p (front ++ body)) = .ok ts ∧ ts.map Token.mark =
      headerMarks p ++ (marks ++ ((.keyword .var, true) :: (ms ++
        [(.sign .closeBrace, newline), (.stop, false)]))) := by
  have hclose : Reads "\x7d".toList [(.sign .closeBrace, false)] [] :=
    .cons rfl (.sign .closeBrace (r := []) nofun) .nil
  have hbody : Reads ('\n' :: (body.toList ++ "\x7d".toList))
      ((.keyword .var, true) :: ms ++ [(.sign .closeBrace, newline)]) [] := by
    have h := hr.followed hover hend.not_open (.cons (by decide)) hclose
    rw [Bool.or_false] at h
    exact h.newline
  have hall := (reads_header hp _).append ((hfront.reads _).append hbody)
  have hreads : Reads (definitionText p (front ++ body)).toList (headerMarks p ++ (marks ++
      ((.keyword .var, true) :: ms ++ [(.sign .closeBrace, newline)]))) [] := by
    simpa only [definitionText, String.toList_append, List.append_assoc] using hall
  obtain ⟨ts, htokens, hts⟩ := tokens_of_reads hreads (show Over [] false from fun p => ⟨p, rfl⟩)
  refine ⟨ts, htokens, hts.trans ?_⟩
  simp only [List.append_assoc, List.cons_append, List.nil_append]

/-! ### Definitions as trees -/

theorem gives_wholeDefinition {p : String} {stmts : List Stmt} {ts : List Token}
    {t₀ t₁ t₂ t₃ t₄ close last : Token} {n : Nat} (h₀ : t₀.kind = .keyword .function)
    (h₁ : t₁.kind = .sign .openParen) (h₂ : t₂.kind = .name p) (h₃ : t₃.kind = .sign .closeParen)
    (h₄ : t₄.kind = .sign .openBrace)
    (hbody : Gives False (statements (levels n maxNesting) false n) ts stmts [close, last])
    (hclose : close.kind = .sign .closeBrace) (hlast : last.kind = .stop) (hn : 0 < n) :
    Gives False (wholeDefinition n) (t₀ :: t₁ :: t₂ :: t₃ :: t₄ :: ts) ⟨none, [p], none, stmts⟩
      [last] := by
  obtain ⟨n, rfl⟩ : ∃ m, n = m + 1 := ⟨n - 1, by omega⟩
  have hparameters : Gives False (parameters (n + 1)) (t₂ :: t₃ :: t₄ :: ts) ([p], none)
      (t₃ :: t₄ :: ts) := by
    refine .parametersOne h₂ ?_
    rw [headKind, h₃]
    rfl
  have hstop : Gives False expectStop [last] () [last] := by
    refine .of_run ?_
    rw [run_expectStop, headKind, hlast]
    rfl
  rw [wholeDefinition]
  refine .keyword h₀ (.noName (fun word hword => ?_)
    (.bind (.definitionRest h₁ hparameters h₃ h₄ hbody hclose) (.bind hstop .pure)))
  rw [h₁] at hword
  cases hword

/-- **Definitions around a body** parse to the function with the body's statements. -/
theorem parseDefinition_definitionText {p front body : String} {marks : List Mark}
    {before stmts : List Stmt} {rest : List Char} (hp : isName p = true)
    (hfront : Front front marks before) (hvar : Next body.toList (.keyword .var, false) rest)
    (hend : CommentsEnd body.toList) (h : parseBody body = .ok stmts) :
    parseDefinition (definitionText p (front ++ body)) = .ok ⟨none, [p], none, before ++ stmts⟩ := by
  obtain ⟨ts, htokens, hwhole⟩ := parseBody_eq_ok.mp h
  obtain ⟨ms, after, newline, hr, hover, hts⟩ := tokens_var htokens hvar
  obtain ⟨t, ts, rfl, ht, hts⟩ := List.map_eq_cons_iff.mp hts
  obtain ⟨us, hus, hmarks⟩ := tokens_definitionText hp hfront hr hover hend
  simp only [headerMarks, List.cons_append, List.nil_append] at hmarks
  obtain ⟨t₀, us, rfl, h₀, hmarks⟩ := List.map_eq_cons_iff.mp hmarks
  obtain ⟨t₁, us, rfl, h₁, hmarks⟩ := List.map_eq_cons_iff.mp hmarks
  obtain ⟨t₂, us, rfl, h₂, hmarks⟩ := List.map_eq_cons_iff.mp hmarks
  obtain ⟨t₃, us, rfl, h₃, hmarks⟩ := List.map_eq_cons_iff.mp hmarks
  obtain ⟨t₄, us, rfl, h₄, hmarks⟩ := List.map_eq_cons_iff.mp hmarks
  obtain ⟨bs, us, rfl, hbs, hmarks⟩ := List.map_eq_append_iff.mp hmarks
  obtain ⟨v, us, rfl, hv, hmarks⟩ := List.map_eq_cons_iff.mp hmarks
  obtain ⟨vs, us, rfl, hvs, hmarks⟩ := List.map_eq_append_iff.mp hmarks
  obtain ⟨close, us, rfl, hclose, hmarks⟩ := List.map_eq_cons_iff.mp hmarks
  obtain ⟨w, rfl, hw⟩ := List.map_eq_singleton_iff.mp hmarks
  have hcloseKind : close.kind = .sign .closeBrace := congrArg Prod.fst hclose
  -- what the text has in tokens bounds the statements that the parser may read
  generalize hn : (t₀ :: t₁ :: t₂ :: t₃ :: t₄ :: (bs ++ v :: (vs ++ [close, w]))).length = n at *
  have hlen : bs.length + ms.length + 8 = n := by
    rw [← hn, ← hvs, List.length_map]
    simp only [List.length_append, List.length_cons, List.length_nil]
    omega
  have hmarksLen : marks.length = bs.length := by rw [← hbs, List.length_map]
  have hbefore := hfront.length_le
  -- the statements that the body alone is parsed to are parsed again before the closing brace
  let C : Ending := ⟨close, [w], by rw [hcloseKind]; trivial, False⟩
  have hbody := @Whole.elsewhere_var _ v _ vs _ _ _ hwhole (congrArg Prod.fst ht) hts
    (fun m hm => hr.sound m (List.mem_cons_of_mem _ hm)) (congrArg Prod.fst hv) hvs C
    (Ending.endsBlock_of_brace hcloseKind) id n (n - before.length) (by omega) (by omega)
  have hall := hfront.gives (kinds_of_marks hbs) (n := n) (by omega) (by omega) (.of_run hbody)
  rw [Nat.sub_add_cancel (by omega)] at hall
  have hdefinition := gives_wholeDefinition (congrArg Prod.fst h₀) (congrArg Prod.fst h₁)
    (congrArg Prod.fst h₂) (congrArg Prod.fst h₃) (congrArg Prod.fst h₄) hall hcloseKind
    (congrArg Prod.fst hw) (by omega)
  rw [parseDefinition, runOn, except_bind_of_ok hus, hn, except_bind_of_ok hdefinition.run]
  rfl

/-! ### Reloading -/

theorem commentsEnd_body (pieces : List Piece) :
    CommentsEnd (Body.ofTemplate pieces).toList := by
  refine commentsEnd_of_newline ?_
  rw [Body.ofTemplate, String.toList_append, List.getLast?_append]
  rfl

theorem trim_of_bare? {name parameter : String} (h : Variable.bare? name = some parameter) :
    Text.trim name = parameter := by
  simp only [Variable.bare?] at h
  split at h
  · exact Option.some.inj h
  · cases h

/-- **What compiling gives**: a function of the data and the helper object, and the definition that
it has without the helper object. -/
theorem compile_eq_ok {settings : Settings} {text : String} {t : Template}
    (h : compile settings text = .ok t) : ∃ p front marks before stmts, isName p = true ∧
      (∀ name, settings.dataName = some name → Text.trim name = p) ∧
      (settings.dataName = none → p = dataParameter) ∧ Front front marks before ∧
      parseBody (Body.ofTemplate (pieces settings text)) = .ok stmts ∧
      t = ⟨functionOf p (before ++ stmts),
        definitionText p (front ++ Body.ofTemplate (pieces settings text))⟩ := by
  cases hdata : settings.dataName with
  | none =>
      rw [compile_default hdata] at h
      cases hb : build dataParameter (Body.ofTemplate (pieces settings text)) with
      | error e => rw [hb] at h; cases h
      | ok d =>
          rw [hb] at h
          cases h
          obtain ⟨hp, stmts, hparse, rfl⟩ := build_eq_ok.mp hb
          have hformed := formed_functionOf hp (formed_of_parseBody hparse)
          have hnames : ∀ n ∈ freeNames (functionOf dataParameter stmts), isName n = true :=
            fun n hn => isName_of_mem_freeNames hformed hn
          refine ⟨dataParameter, _, _, _, stmts, hp, fun _ h => ?_, fun _ => rfl,
            .bindings hp hnames, hparse, rfl⟩
          cases h
  | some name =>
      rw [compile, parts, hdata] at h
      obtain ⟨⟨p, body⟩, hparts, h⟩ := except_bind_ok h
      obtain ⟨d, hb, h⟩ := except_bind_ok h
      cases h
      cases hbare : Variable.bare? name with
      | none => simp only [hbare] at hparts; cases hparts
      | some parameter =>
          simp only [hbare] at hparts
          cases hparts
          obtain ⟨hp, stmts, hparse, rfl⟩ := build_eq_ok.mp hb
          refine ⟨p, "", [], [], stmts, hp, fun other h => ?_, fun h => ?_, .nothing, hparse, ?_⟩
          · cases h
            exact trim_of_bare? hbare
          · cases h
          · rw [String.empty_append, List.nil_append]

theorem ofSource_of_parseDefinition {source : String} {d : Definition}
    (h : parseDefinition source = .ok d) : ofSource source = .ok ⟨d, source⟩ := by
  rw [ofSource, h]

/-- **Reloading is faithful.**  A template that never declares or assigns `_`, and whose data is not
called so either, has a source that makes a template again, and the two render alike. -/
theorem render_ofSource {settings : Settings} {text : String} {t : Template}
    (h : compile settings text = .ok t)
    (hname : ∀ name, settings.dataName = some name → Text.trim name ≠ "_")
    (hw : ¬ Writes t.function.body "_") :
    ∃ reloaded, ofSource t.source = .ok reloaded ∧
      t.function.parameters = reloaded.function.parameters ++ ["_"] ∧
      ∀ steps data, reloaded.render steps data = t.render steps data := by
  obtain ⟨rest, hvar⟩ := next_body (pieces settings text)
  obtain ⟨p, front, marks, before, stmts, hp, hdata, hdefault, hfront, hparse, rfl⟩ := compile_eq_ok h
  have hne : p ≠ "_" := by
    cases hd : settings.dataName with
    | none => rw [hdefault hd]; decide
    | some name => exact hdata name hd ▸ hname name hd
  have hsource := parseDefinition_definitionText hp hfront hvar (commentsEnd_body _) hparse
  have hload := ofSource_of_parseDefinition hsource
  exact ⟨_, hload, rfl, fun steps data => (apply_helper hne hw steps data).symm⟩

/-- A template that uses the helper object. -/
def escapesItself : String := "<%= _.escape(x) %>"

/-- The template that is made from the source of `escapesItself` renders as it does. -/
theorem render_ofSource_escapesItself : ∃ t, compile .standard escapesItself = .ok t ∧
    (∀ name, Settings.standard.dataName = some name → Text.trim name ≠ "_") ∧
    ¬ Writes t.function.body "_" ∧ ∃ reloaded, ofSource t.source = .ok reloaded ∧
      reloaded.render 60 (.object [("x", .string "<")]) = .ok "&lt;" := by
  have hread : (readBody (bodyChars (pieces .standard escapesItself))).toOption.map (fun stmts =>
      ((boundFunction dataParameter stmts).apply 60 (.object [("x", .string "<")]),
        decide (Writes (boundFunction dataParameter stmts).body "_"))) =
      some (.ok "&lt;", false) := by decide +kernel
  obtain ⟨stmts, source, -, -, hc, hshown⟩ := compile_of_readBody hread rfl
  obtain ⟨houtput, hwrites⟩ := Prod.mk.inj hshown
  have hw := of_decide_eq_false hwrites
  obtain ⟨reloaded, hload, -, hsame⟩ := render_ofSource hc nofun hw
  exact ⟨_, hc, nofun, hw, reloaded, hload, (hsame _ _).trans houtput⟩

end Template

end Stencil
