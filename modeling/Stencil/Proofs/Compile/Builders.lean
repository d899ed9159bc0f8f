import Stencil.Proofs.Compile.Positions
import Stencil.Proofs.Grammar.Definitions
import Stencil.Proofs.Tokens.Bare

/-!
# Compile — two ways to build a function

A template's function is built from its parameters and its body; the text that is kept beside it, and the
text that a failure reports, is the one of a definition around that body.  The two ways agree on every list
of names and every body, and so a template that compiles can be loaded from its source, and one that does
not cannot be loaded from the text it reports (`builders_agree`).
-/

namespace Stencil
open Script Script.Parser Variable

namespace Template

/-! ### Definitions whose parameter is no name -/

/-- **Definitions whose parameter is bare and no name** do not parse, whatever their body is. -/
theorem not_parseDefinition_of_bare {p body : String} {d : Definition} (hne : p ≠ "")
    (hbare : ∀ c ∈ p.toList, isBareChar c = true) (hp : isName p = false) :
    parseDefinition (definitionText p body) ≠ .ok d := by
  intro h
  obtain ⟨ts, htokens, h⟩ := except_bind_ok h
  obtain ⟨⟨d', last⟩, hrun, -⟩ := except_bind_ok h
  obtain ⟨marks, rest, newline, hr, hover, hts⟩ := reads_of_tokens htokens
  have hopening : Reads (definitionText p body).toList
      [(.keyword .function, false), (.sign .openParen, false)]
      (p.toList ++ ')' :: '\x7b' :: '\n' :: (body.toList ++ ['\x7d'])) := by
    have htext : (definitionText p body).toList = 'f' :: ['u', 'n', 'c', 't', 'i', 'o', 'n'] ++
        '(' :: (p.toList ++ ')' :: '\x7b' :: '\n' :: (body.toList ++ ['\x7d'])) := by
      simp only [definitionText, String.toList_append, List.append_assoc]
      rfl
    rw [htext]
    exact .cons rfl (.wordBefore 'f' _ (by decide) (by decide) (by decide))
      (.cons rfl (.alone .openParen (by decide) _) .nil)
  -- the third token is read from the parameter, and the parser wants a name or a sign there
  obtain ⟨more, rfl, hmore⟩ := hopening.begins hr hover
  obtain ⟨t, ts, rfl, ht, hts⟩ := List.map_eq_cons_iff.mp hts
  obtain ⟨u, ts, rfl, hu, hts⟩ := List.map_eq_cons_iff.mp hts
  rw [run_wholeDefinition_parameters (congrArg Prod.fst ht) (congrArg Prod.fst hu)] at hrun
  obtain ⟨found, after, hparameters, -⟩ := run_bind_ok hrun
  cases more with
  | nil =>
      obtain ⟨v, rfl, hv⟩ := List.map_eq_singleton_iff.mp hts
      have hkind : v.kind = .stop := congrArg Prod.fst hv
      rcases kind_of_parameters hparameters with ⟨sign, hsign⟩ | ⟨word, hword⟩
      · rw [hkind] at hsign; cases hsign
      · rw [hkind] at hword; cases hword
  | cons m ms =>
      obtain ⟨v, ts, rfl, hv, hts⟩ := List.map_eq_cons_iff.mp hts
      have hkind : v.kind = m.1 := congrArg Prod.fst hv
      rcases hmore.of_bare hne hbare (fun c hc => by cases hc; decide) hover with
        hname | ⟨keyword, hm⟩ | ⟨value, hm⟩
      · rw [hname] at hp
        cases hp
      all_goals
        rw [hm] at hkind
        rcases kind_of_parameters hparameters with ⟨sign, hsign⟩ | ⟨word, hword⟩
        · rw [hkind] at hsign; cases hsign
        · rw [hkind] at hword; cases hword

/-! ### Sources -/

/-- A body that ends a line, in the text of a definition. -/
theorem definitionText_line (p body : String) :
    definitionText p (body ++ "\n") = writtenDefinition [p] body := by
  rw [definitionText, writtenDefinition, String.intercalate_singleton,
    show "\n\x7d" = "\n" ++ "\x7d" from rfl]
  simp only [String.append_assoc]

/-- **A template that compiles** can be loaded from its source. -/
theorem exists_ofSource {settings : Settings} {text : String} {t : Template}
    (h : compile settings text = .ok t) : ∃ reloaded, ofSource t.source = .ok reloaded := by
  obtain ⟨rest, hvar⟩ := next_body (pieces settings text)
  obtain ⟨p, front, marks, before, stmts, hp, -, -, hfront, hparse, rfl⟩ := compile_eq_ok h
  exact ⟨_, ofSource_of_parseDefinition
    (parseDefinition_definitionText hp hfront hvar (commentsEnd_body _) hparse)⟩

/-- **A template that does not build** cannot be loaded from the text of its function. -/
theorem ofSource_generated {settings : Settings} {text generated : String} {e : ParseError}
    (h : compile settings text = .error (.generation e generated)) :
    ∃ e', ofSource generated = .error (.generation e' generated) := by
  obtain ⟨p, hdefault, hnamed, rfl, hbuild⟩ := compile_eq_error h
  obtain ⟨body, hbody⟩ : ∃ body, Body.ofTemplate (pieces settings text) = body ++ "\n" :=
    ⟨Body.prelude ++ Body.ofPieces (pieces settings text) ++ "return __p;", by
      simp only [Body.ofTemplate, show Body.epilogue = "return __p;" ++ "\n" from rfl,
        String.append_assoc]⟩
  rw [hbody] at hbuild ⊢
  have hfails : ∀ d, parseDefinition (definitionText p (body ++ "\n")) ≠ .ok d := by
    intro d hd
    cases hp : isName p with
    | true =>
        rw [definitionText_line] at hd
        obtain ⟨stmts, hparse, -⟩ :=
          (parseDefinition_writtenDefinition (List.forall_mem_singleton.mpr hp)).mp hd
        have hbuilt := (build_eq_ok_iff (List.forall_mem_cons.mpr ⟨hp,
          List.forall_mem_singleton.mpr (show isName "_" = true by decide)⟩)).mpr
          ⟨stmts, parseBody_append_lineFeed hparse, rfl⟩
        rw [hbuilt] at hbuild
        cases hbuild
    | false =>
        cases hdata : settings.dataName with
        | none =>
            rw [hdefault hdata] at hp
            cases hp
        | some name =>
            obtain ⟨hbare, rfl⟩ := hnamed name hdata
            obtain ⟨hne, hchars⟩ := (isBare_iff name).mp hbare
            exact not_parseDefinition_of_bare hne (fun c hc => by
              simpa [isBareChar] using hchars c hc) hp hd
  rw [ofSource]
  cases hd : parseDefinition (definitionText p (body ++ "\n")) with
  | ok d => exact absurd hd (hfails d)
  | error e' => exact ⟨e', rfl⟩

/-- **The builders agree.**  A function is built from a list of names and the text of its body if and only
if the text of its definition parses, and to the same function; a template that compiles can be loaded from
its source; and one that does not build cannot be loaded from the text it reports. -/
theorem builders_agree :
    (∀ parameters body d, (∀ p ∈ parameters, isName p = true) →
      (Definition.build parameters body = .ok d ↔
        parseDefinition (writtenDefinition parameters body) = .ok d)) ∧
    ∀ settings text,
      (∀ t, compile settings text = .ok t → ∃ reloaded, ofSource t.source = .ok reloaded) ∧
      ∀ e generated, compile settings text = .error (.generation e generated) →
        ∃ e', ofSource generated = .error (.generation e' generated) :=
  ⟨fun _ _ _ hp => build_iff_parseDefinition hp,
    fun _ _ => ⟨fun _ => exists_ofSource, fun _ _ => ofSource_generated⟩⟩

/-- A body with a comment that would take in the brace, one with a brace of its own, and a template whose
directive closes the function. -/
theorem builders_agree_braces :
    (∃ d, Definition.build ["a", "b"] "return a + b // \x7d" = .ok d ∧
      parseDefinition (writtenDefinition ["a", "b"] "return a + b // \x7d") = .ok d) ∧
    (∀ d, parseDefinition (writtenDefinition ["a"] "return a \x7d") ≠ .ok d) ∧
    (∃ t reloaded, compile .standard "<%= x %>" = .ok t ∧ ofSource t.source = .ok reloaded) ∧
    ∃ e generated e', compile .standard "<% \x7d %>" = .error (.generation e generated) ∧
      ofSource generated = .error (.generation e' generated) := by
  have hbuilt : (Definition.build ["a", "b"] "return a + b // \x7d").toOption.isSome = true := by
    decide +kernel
  have hfails : (Definition.build ["a"] "return a \x7d").toOption.isSome = false := by decide +kernel
  have hread : (readBody (bodyChars (pieces .standard "<%= x %>"))).toOption.map (fun _ => ()) =
      some () := by decide +kernel
  have hbroken : (reported (compile .standard "<% \x7d %>")).isSome = true := by decide +kernel
  refine ⟨?_, fun d hd => ?_, ?_, ?_⟩
  · cases hb : Definition.build ["a", "b"] "return a + b // \x7d" with
    | error e => rw [hb] at hbuilt; cases hbuilt
    | ok d => exact ⟨d, rfl, (builders_agree.1 _ _ d (by decide)).mp hb⟩
  · rw [(builders_agree.1 _ _ d (by decide)).mpr hd] at hfails
    cases hfails
  · obtain ⟨stmts, source, -, -, hc, -⟩ := compile_of_readBody hread rfl
    obtain ⟨reloaded, hload⟩ := (builders_agree.2 _ _).1 _ hc
    exact ⟨_, reloaded, hc, hload⟩
  · obtain ⟨p, hp⟩ := Option.isSome_iff_exists.mp hbroken
    obtain ⟨e, generated, he, -⟩ := exists_of_reported hp
    obtain ⟨e', he'⟩ := (builders_agree.2 _ _).2 e generated he
    exact ⟨e, generated, e', he, he'⟩

end Template

end Stencil
