import Stencil.Proofs.Compile.Reload

/-!
# Compile — templates with a name for their data

The name under which a template sees its data stands in the text of its function, between the
parentheses of the header.  What happens depends on the name alone, without the blanks at its ends:

* if it is not bare, it is refused as it was given, whatever the template;
* if it is bare and no name of the language, the function is not built;
* if it is a name of the language, the template compiles as soon as its body parses, and the name is
  one token of the source: the parameter.
-/

namespace Stencil
open Script Script.Parser

/-! ### Bare names -/

namespace Variable

theorem isBare_iff (s : String) : isBare s = true ↔
    Text.trim s ≠ "" ∧ ∀ c ∈ (Text.trim s).toList, Text.isWord c = true ∨ c = '$' := by
  have hempty : Text.trim s = "" ↔ Text.trimChars s.toList = [] := by
    rw [Text.trim, String.ofList_eq_empty_iff]
  rw [Ne, hempty, Text.trim, String.toList_ofList]
  simp only [isBare, isBareChar, Bool.and_eq_true, List.all_eq_true, Bool.or_eq_true, beq_iff_eq,
    Bool.not_eq_true', List.isEmpty_eq_false_iff, ne_eq]

theorem bare?_of_isBare {s : String} (h : isBare s = true) : bare? s = some (Text.trim s) :=
  if_pos h

theorem bare?_of_not_isBare {s : String} (h : ¬ isBare s = true) : bare? s = none :=
  if_neg h

end Variable

namespace Template

/-! ### Tokens of the source -/

/-- The kinds of the tokens before a body. -/
def headerKinds (p : String) : List TokenKind :=
  [.keyword .function, .sign .openParen, .name p, .sign .closeParen, .sign .openBrace]

/-- **The tokens of a source** are those of its header, in which the parameter is one token, those
of the body, and the closing brace. -/
theorem kinds_definitionText {p body : String} {rest : List Char} {ts : List Token}
    (hp : isName p = true) (hvar : Next body.toList (.keyword .var, false) rest)
    (hend : CommentsEnd body.toList) (h : tokens body = .ok ts) :
    ∃ inside us, kinds ts = inside ++ [.stop] ∧ tokens (definitionText p body) = .ok us ∧
      kinds us = headerKinds p ++ (inside ++ [.sign .closeBrace, .stop]) := by
  obtain ⟨ms, after, newline, hr, hover, hts⟩ := tokens_var h hvar
  obtain ⟨us, hus, hmarks⟩ := tokens_definitionText hp .nothing hr hover hend
  rw [String.empty_append] at hus
  refine ⟨.keyword .var :: ms.map Prod.fst, us, ?_, hus, ?_⟩
  · rw [kinds_of_marks hts]
    simp only [List.map_cons, List.map_append, List.map_nil, List.cons_append]
  · rw [kinds_of_marks hmarks]
    simp only [headerMarks, headerKinds, List.map_cons, List.map_append, List.map_nil,
      List.nil_append, List.cons_append]

/-! ### Compiling -/

section
variable {settings : Settings} {name : String} (h : settings.dataName = some name) (text : String)
include h

theorem compile_of_not_bare (hbare : ¬ Variable.isBare name = true) :
    compile settings text = .error (.invalidVariable name) := by
  rw [compile, parts, h]
  simp only [Variable.bare?_of_not_isBare hbare]
  rfl

theorem compile_of_bare (hbare : Variable.isBare name = true) :
    compile settings text =
      match build (Text.trim name) (Body.ofTemplate (pieces settings text)) with
      | .error e => .error e
      | .ok d => .ok ⟨d, definitionText (Text.trim name) (Body.ofTemplate (pieces settings text))⟩ := by
  rw [compile, parts, h]
  simp only [Variable.bare?_of_isBare hbare]
  rw [except_bind_of_ok rfl]
  cases build (Text.trim name) (Body.ofTemplate (pieces settings text)) <;> rfl

end

theorem build_of_not_isName {p body : String} (hp : isName p = false) :
    build p body = .error (.generation ⟨.invalidParameter p, .start⟩ (definitionText p body)) := by
  simp only [build, Definition.build, List.find?_cons, hp, Bool.not_false]

/-- **What a build error is about**: the body of the template, or the name of its data. -/
theorem compile_eq_error {settings : Settings} {text : String} {e : ParseError} {generated : String}
    (h : compile settings text = .error (.generation e generated)) :
    ∃ p, (settings.dataName = none → p = dataParameter) ∧
      (∀ name, settings.dataName = some name → Variable.isBare name = true ∧ Text.trim name = p) ∧
      generated = definitionText p (Body.ofTemplate (pieces settings text)) ∧
      Definition.build [p, "_"] (Body.ofTemplate (pieces settings text)) = .error e := by
  have of_build : ∀ {p}, build p (Body.ofTemplate (pieces settings text)) =
      .error (.generation e generated) →
        generated = definitionText p (Body.ofTemplate (pieces settings text)) ∧
        Definition.build [p, "_"] (Body.ofTemplate (pieces settings text)) = .error e := by
    intro p hb
    rw [build] at hb
    split at hb
    · cases hb
    · rename_i hd
      cases hb
      exact ⟨rfl, hd⟩
  cases hdata : settings.dataName with
  | none =>
      rw [compile_default hdata] at h
      split at h
      · rename_i hb
        cases h
        exact ⟨dataParameter, fun _ => rfl, fun _ h => (by cases h), of_build hb⟩
      · cases h
  | some name =>
      by_cases hbare : Variable.isBare name = true
      · rw [compile_of_bare hdata text hbare] at h
        split at h
        · rename_i hb
          cases h
          refine ⟨Text.trim name, fun h => (by cases h), fun _ h => ?_, of_build hb⟩
          cases h
          exact ⟨hbare, rfl⟩
        · cases h
      · rw [compile_of_not_bare hdata text hbare] at h
        cases h

/-- **Templates with a name for their data.**  A name that is not bare is refused as it was given;
one that is bare and no name of the language keeps the function from being built; and with any other
the template compiles if and only if its body parses, to a function whose source takes the name as
its only parameter, has the same body, and holds the name as one token. -/
theorem compile_named {settings : Settings} {name : String} (h : settings.dataName = some name)
    (text : String) :
    ((Text.trim name = "" ∨ ∃ c ∈ (Text.trim name).toList, Text.isWord c = false ∧ c ≠ '$') →
      compile settings text = .error (.invalidVariable name)) ∧
    (Text.trim name ≠ "" → (∀ c ∈ (Text.trim name).toList, Text.isWord c = true ∨ c = '$') →
      (isName (Text.trim name) = false → compile settings text =
        .error (.generation ⟨.invalidParameter (Text.trim name), .start⟩
          (definitionText (Text.trim name) (Body.ofTemplate (pieces settings text))))) ∧
      (isName (Text.trim name) = true →
        ((∃ t, compile settings text = .ok t) ↔
          ∃ stmts, parseBody (Body.ofTemplate (pieces settings text)) = .ok stmts) ∧
        ∀ t, compile settings text = .ok t →
          parseDefinition t.source = .ok ⟨none, [Text.trim name], none, t.function.body⟩ ∧
          ∃ ts inside us, tokens (Body.ofTemplate (pieces settings text)) = .ok ts ∧
            kinds ts = inside ++ [.stop] ∧ tokens t.source = .ok us ∧
            kinds us = headerKinds (Text.trim name) ++ (inside ++ [.sign .closeBrace, .stop]))) := by
  refine ⟨fun hrefused => ?_, fun hne hchars => ?_⟩
  · refine compile_of_not_bare h text fun hbare => ?_
    obtain ⟨hne, hchars⟩ := (Variable.isBare_iff name).mp hbare
    rcases hrefused with hempty | ⟨c, hc, hword, hdollar⟩
    · exact hne hempty
    · rcases hchars c hc with hw | hd
      · rw [hw] at hword
        cases hword
      · exact hdollar hd
  · have hbare := (Variable.isBare_iff name).mpr ⟨hne, hchars⟩
    rw [compile_of_bare h text hbare]
    obtain ⟨rest, hvar⟩ := next_body (pieces settings text)
    have hend := commentsEnd_body (pieces settings text)
    -- all that is used of the body is its first token and that no comment goes on after it
    generalize Body.ofTemplate (pieces settings text) = body at hvar hend ⊢
    refine ⟨fun hp => ?_, fun hp => ⟨?_, fun t ht => ?_⟩⟩
    · rw [build_of_not_isName hp]
    · constructor
      · rintro ⟨t, ht⟩
        cases hb : build (Text.trim name) body with
        | error e => rw [hb] at ht; cases ht
        | ok d =>
            obtain ⟨-, stmts, hparse, -⟩ := build_eq_ok.mp hb
            exact ⟨stmts, hparse⟩
      · rintro ⟨stmts, hparse⟩
        rw [build_eq_ok.mpr ⟨hp, stmts, hparse, rfl⟩]
        exact ⟨_, rfl⟩
    · cases hb : build (Text.trim name) body with
      | error e => rw [hb] at ht; cases ht
      | ok d =>
          rw [hb] at ht
          cases ht
          obtain ⟨-, stmts, hparse, rfl⟩ := build_eq_ok.mp hb
          obtain ⟨ts, hts, -⟩ := parseBody_eq_ok.mp hparse
          obtain ⟨inside, us, hinside, hus, hkinds⟩ := kinds_definitionText hp hvar hend hts
          have hsource := parseDefinition_definitionText hp .nothing hvar hend hparse
          rw [String.empty_append, List.nil_append] at hsource
          exact ⟨hsource, ts, inside, us, hts, hinside, hus, hkinds⟩

/-- The standard settings with a name for the data. -/
def standardNamed (name : String) : Settings :=
  { Settings.standard with dataName := some name }

/-- Three names: one that would close the header, one that begins with a digit, and one with blanks
around it. -/
theorem compile_named_memberX :
    compile (standardNamed "a)\x7b") "<%= a.x %>" = .error (.invalidVariable "a)\x7b") ∧
    (∃ generated, compile (standardNamed "1abc") "<% if (" =
      .error (.generation ⟨.invalidParameter "1abc", .start⟩ generated)) ∧
    ∃ t, compile (standardNamed " a\t") "<%= a.x %>" = .ok t ∧
      ∃ d, parseDefinition t.source = .ok d ∧ d.parameters = ["a"] := by
  have closes := @compile_named (standardNamed "a)\x7b") "a)\x7b" rfl "<%= a.x %>"
  have digit := @compile_named (standardNamed "1abc") "1abc" rfl "<% if ("
  have named := @compile_named (standardNamed " a\t") " a\t" rfl "<%= a.x %>"
  rw [show Text.trim "a)\x7b" = "a)\x7b" by decide] at closes
  rw [show Text.trim "1abc" = "1abc" by decide] at digit
  rw [show Text.trim " a\t" = "a" by decide] at named
  have hparse : (parseBody (Body.ofTemplate
      (pieces (standardNamed " a\t") "<%= a.x %>"))).toOption.isSome = true := by
    rw [parseBody_eq_readBody, toList_ofTemplate]
    decide +kernel
  refine ⟨closes.1 (.inr ⟨')', by decide, by decide +kernel, by decide⟩),
    ⟨_, (digit.2 (by decide) (forall_of_all (by decide))).1 (by decide)⟩, ?_⟩
  obtain ⟨hcompiles, hsource⟩ := (named.2 (by decide) (forall_of_all (by decide))).2 (by decide)
  generalize parseBody (Body.ofTemplate (pieces (standardNamed " a\t") "<%= a.x %>")) = parsed
    at hparse hcompiles
  cases parsed with
  | error e => cases hparse
  | ok stmts =>
      obtain ⟨t, ht⟩ := hcompiles.mpr ⟨stmts, rfl⟩
      exact ⟨t, ht, _, (hsource t ht).1, rfl⟩

end Template

end Stencil
