import Mathlib.Control.Monad.Basic
import Stencil.Proofs.Compile.Bindings
import Stencil.Proofs.Names.Free

/-!
# Compile — templates are closed over their data

Without a name for the data, a template's function takes every name that it uses and does not bind
from the data.  `compile_default` says what the function is: the one that the body alone becomes,
with bindings before it.  From there:

* the bindings never keep a template from compiling;
* the function has no free names;
* it fails over a name that is not defined only where a declaration with `let` or `const` has not
  been reached.
-/

namespace Stencil
open Script Script.Parser

namespace Template

/-- The function of the data, under a name, and the helper object. -/
def functionOf (parameter : String) (body : List Stmt) : Definition :=
  ⟨none, [parameter, "_"], none, body⟩

/-- The function of the data and the helper object that binds members before its body. -/
def boundFunction (parameter : String) (body : List Stmt) : Definition :=
  functionOf parameter
    (bindingStatements parameter (freeNames (functionOf parameter body)) ++ body)

/-! ### Building -/

theorem build_eq_ok {parameter body : String} {d : Definition} :
    build parameter body = .ok d ↔ isName parameter = true ∧
      ∃ stmts, parseBody body = .ok stmts ∧ d = functionOf parameter stmts := by
  have hhelper : isName "_" = true := by decide
  rw [build, Definition.build]
  cases hp : isName parameter with
  | false => simp [hp]
  | true =>
      simp only [List.find?_cons, hp, hhelper, Bool.not_true, List.find?_nil, true_and]
      cases parseBody body with
      | error e => simp [Except.map]
      | ok stmts =>
          simp only [Except.map, Except.ok.injEq, exists_eq_left']
          exact ⟨fun h => h ▸ rfl, fun h => h ▸ rfl⟩

theorem next_body (pieces : List Piece) : ∃ rest,
    Next (Body.ofTemplate pieces).toList (.keyword .var, false) rest := by
  have htext : ∃ rest, (Body.ofTemplate pieces).toList = 'v' :: ['a', 'r'] ++ ' ' :: rest := by
    simp only [Body.ofTemplate, String.toList_append, List.append_assoc]
    exact ⟨_, rfl⟩
  obtain ⟨rest, htext⟩ := htext
  rw [htext]
  exact ⟨_, Next.word (by decide) (by decide) fun c hc => by cases hc; decide⟩

/-! ### Free names -/

theorem formed_functionOf {parameter : String} (hp : isName parameter = true) {body : List Stmt}
    (h : FormedBody False body) : (functionOf parameter body).Formed := by
  refine ⟨fun word hw => ?_, h⟩
  simp only [Option.toList, List.append_nil, List.nil_append, List.mem_cons, List.not_mem_nil,
    or_false] at hw
  rcases hw with rfl | rfl
  · exact hp
  · decide

theorem isName_of_mem_freeNames {d : Definition} (h : d.Formed) {n : String}
    (hn : n ∈ freeNames d) : isName n = true := by
  have hm := Definition.mem_mentioned_of_mem_uses d (mem_freeNames.mp hn).1
  obtain ⟨m, hm, hname⟩ := mem_mentioned.mp hm
  exact (h.mentions d m hm).2 n hname

theorem usesBody_append (bound : List String) (l m : List Stmt) :
    usesBody bound (l ++ m) = usesBody bound l ++ usesBody bound m := by
  induction l with
  | nil => rfl
  | cons s l ih => simp only [List.cons_append, usesBody, ih, List.append_assoc]

theorem hoistedNames_append (l m : List Stmt) :
    hoistedNames (l ++ m) = hoistedNames l ++ hoistedNames m := by
  induction l with
  | nil => rfl
  | cons s l ih => simp only [List.cons_append, hoistedNames, ih, List.append_assoc]

theorem mem_usesBody_bindings {p n : String} {names : List String}
    (h : n ∈ usesBody [] (bindingStatements p names)) : n = p := by
  have members : ∀ names : List String, n ∈ usesBindings [] (names.map (memberBinding p)) → n = p := by
    intro names h
    induction names with
    | nil => cases h
    | cons w names ih =>
        rcases List.mem_append.mp h with h | h
        · simpa [memberBinding, usesOption, Expr.uses] using h
        · exact ih h
  rcases List.mem_append.mp h with h | h
  · simpa [defaultStatement, Stmt.uses, Expr.uses, usesFields] using h
  · split at h
    · cases h
    · rw [usesBody, usesBody, List.append_nil] at h
      exact members names h

theorem mem_hoistedNames_bindings {p n : String} {names : List String} (h : n ∈ names) :
    n ∈ hoistedNames (bindingStatements p names) := by
  cases names with
  | nil => cases h
  | cons w names =>
      have hmap : ((w :: names).map (memberBinding p)).map Prod.fst = w :: names := by
        rw [List.map_map]
        exact List.map_id _
      simp only [bindingStatements, List.isEmpty_cons, Bool.false_eq_true, if_false, hoistedNames,
        Stmt.hoisted, hmap, List.append_nil]
      exact List.mem_append_right _ h

/-- **Bindings close a function.** -/
theorem freeNames_boundFunction (parameter : String) (body : List Stmt) :
    freeNames (boundFunction parameter body) = [] := by
  refine List.eq_nil_iff_forall_not_mem.mpr fun n hn => ?_
  obtain ⟨hu, hg⟩ := mem_freeNames.mp hn
  rw [Definition.uses_eq, List.append_nil] at hu
  obtain ⟨hu, hb⟩ := (mem_usesBody n _ _).mp hu
  rw [boundFunction, functionOf, Definition.body, usesBody_append] at hu
  have hbound : ∀ m, m ∈ (functionOf parameter body).bound ∨
      m ∈ hoistedNames (bindingStatements parameter (freeNames (functionOf parameter body))) →
      m ∈ (boundFunction parameter body).bound := by
    intro m hm
    refine Definition.mem_bound.mpr ?_
    simp only [boundFunction, functionOf, Definition.body, Definition.parameters, Definition.rest,
      Definition.name, lexicalNames, List.flatMap_append, hoistedNames_append] at hm ⊢
    rcases hm with hm | hm
    · rcases Definition.mem_bound.mp hm with hm | hm | hm | hm
      · exact .inl (List.mem_append_right _ hm)
      · exact .inr (.inl hm)
      · cases hm
      · exact .inr (.inr (.inr (List.mem_append_right _ hm)))
    · exact .inr (.inr (.inr (List.mem_append_left _ hm)))
  rcases List.mem_append.mp hu with hu | hu
  · obtain rfl := mem_usesBody_bindings hu
    refine hb (hbound n (.inl (Definition.mem_bound.mpr (.inr (.inl ?_)))))
    exact List.mem_cons_self
  · by_cases hin : n ∈ (functionOf parameter body).bound
    · exact hb (hbound n (.inl hin))
    · refine hb (hbound n (.inr (mem_hoistedNames_bindings (mem_freeNames.mpr ⟨?_, hg⟩))))
      rw [Definition.uses_eq, List.append_nil]
      exact (mem_usesBody n _ _).mpr ⟨hu, hin⟩

/-! ### Compiling -/

/-- **Bindings never break a function.** -/
theorem build_bindings {p body : String} {d : Definition} {rest : List Char}
    (hvar : Next body.toList (.keyword .var, false) rest) (h : build p body = .ok d) :
    build p (bindings p (freeNames d) ++ body) = .ok (boundFunction p d.body) := by
  obtain ⟨hp, stmts, hparse, rfl⟩ := build_eq_ok.mp h
  have hformed := formed_functionOf hp (formed_of_parseBody hparse)
  have hnames : ∀ n ∈ freeNames (functionOf p stmts), isName n = true :=
    fun n hn => isName_of_mem_freeNames hformed hn
  exact build_eq_ok.mpr ⟨hp, _, parseBody_bindings hp hnames hvar hparse, rfl⟩

/-- **Templates without a name for the data.**  They compile if their body does, to the function
that binds members before it. -/
theorem compile_default {settings : Settings} (h : settings.dataName = none) (text : String) :
    compile settings text =
      match build dataParameter (Body.ofTemplate (pieces settings text)) with
      | .error e => .error e
      | .ok d => .ok ⟨boundFunction dataParameter d.body, definitionText dataParameter
          (bindings dataParameter (freeNames d) ++ Body.ofTemplate (pieces settings text))⟩ := by
  obtain ⟨rest, hvar⟩ := next_body (pieces settings text)
  generalize hbody : Body.ofTemplate (pieces settings text) = body at hvar
  rw [compile, parts, h, hbody, bindMembers]
  cases hb : build dataParameter body with
  | error e => rfl
  | ok d =>
      have hbound := build_bindings hvar hb
      show (build dataParameter (bindings dataParameter (freeNames d) ++ body) >>= fun function =>
        pure (Template.mk function _)) = _
      rw [hbound]
      rfl

/-! ### Characters

The kernel takes a text apart in time quadratic in its length, and a list of characters in linear
time.  A concrete template is therefore run on the characters of its body, and on the statements
that they stand for: what is compiled is what these statements become. -/

/-- The statements that the characters of a body stand for. -/
def readBody (cs : List Char) : Except ParseError (List Stmt) := do
  let all ← readTokens (cs.length + 1) [] ⟨cs, .start⟩
  let (stmts, _) ← (wholeBody all.length).run all
  pure stmts

theorem parseBody_eq_readBody (source : String) : parseBody source = readBody source.toList := by
  rw [parseBody, runOn, tokens, Text.Cursor.start, readBody]

/-- The characters of the body that writes pieces. -/
def bodyChars (pieces : List Piece) : List Char :=
  Body.prelude.toList ++ ("__p+='".toList ++ pieces.flatMap Body.ofPiece ++ "';\n".toList) ++
    Body.epilogue.toList

theorem toList_bodyOfPieces (pieces : List Piece) : (Body.ofPieces pieces).toList =
    "__p+='".toList ++ pieces.flatMap Body.ofPiece ++ "';\n".toList := by
  unfold Body.ofPieces
  exact String.toList_ofList

theorem toList_ofTemplate (pieces : List Piece) :
    (Body.ofTemplate pieces).toList = bodyChars pieces := by
  unfold Body.ofTemplate bodyChars
  rw [← toList_bodyOfPieces]
  exact String.toList_append.trans (congrArg (· ++ _) String.toList_append)

/-- **A template compiles to what its statements become**, and a function of the statements shows
what it shows of them. -/
theorem compile_of_readBody {settings : Settings} {text : String} {β : Type} {f : List Stmt → β}
    {b : β} (hread : (readBody (bodyChars (pieces settings text))).toOption.map f = some b)
    (h : settings.dataName = none) :
    ∃ stmts source, parseBody (Body.ofTemplate (pieces settings text)) = .ok stmts ∧
      build dataParameter (Body.ofTemplate (pieces settings text)) =
        .ok (functionOf dataParameter stmts) ∧
      compile settings text = .ok ⟨boundFunction dataParameter stmts, source⟩ ∧ f stmts = b := by
  rw [← toList_ofTemplate, ← parseBody_eq_readBody] at hread
  cases hparse : parseBody (Body.ofTemplate (pieces settings text)) with
  | error e =>
      rw [hparse] at hread
      cases hread
  | ok stmts =>
      rw [hparse] at hread
      have hbuild := build_eq_ok.mpr
        ⟨show isName dataParameter = true by decide, stmts, hparse, rfl⟩
      have hcompile := compile_default h text
      rw [hbuild] at hcompile
      exact ⟨stmts, _, rfl, hbuild, hcompile, Option.some.inj hread⟩

theorem parseBody_of_build_error {p body : String} (hp : isName p = true) {e : Error}
    (h : build p body = .error e) : ∃ cause, parseBody body = .error cause := by
  cases hparse : parseBody body with
  | ok stmts => rw [build_eq_ok.mpr ⟨hp, stmts, hparse, rfl⟩] at h; cases h
  | error cause => exact ⟨cause, rfl⟩

/-- **Templates without a name for the data are closed.**  They compile unless their body alone
does not parse; their function takes no names from outside; and it fails over a name only where a
declaration of the name with `let` or `const` has not been reached. -/
theorem closed_of_compile {settings : Settings} (h : settings.dataName = none) (text : String) :
    (∀ e, compile settings text = .error e →
      ∃ cause, parseBody (Body.ofTemplate (pieces settings text)) = .error cause) ∧
    ∀ t, compile settings text = .ok t → freeNames t.function = [] ∧
      ∀ steps data f, t.render steps data = .error (.fault f) → f.kind = .reference →
        ∃ n, f = .notDefined n ∧ t.function.DeclaresLexically n := by
  rw [compile_default h]
  cases hb : build dataParameter (Body.ofTemplate (pieces settings text)) with
  | error e =>
      exact ⟨fun _ _ => parseBody_of_build_error (by decide) hb, nofun⟩
  | ok d =>
      refine ⟨nofun, fun t ht => ?_⟩
      cases ht
      obtain ⟨hp, stmts, hparse, rfl⟩ := build_eq_ok.mp hb
      have hfree := freeNames_boundFunction dataParameter stmts
      refine ⟨hfree, fun steps data f hf hkind => ?_⟩
      have hformed : (boundFunction dataParameter stmts).Formed := by
        obtain ⟨rest, hvar⟩ := next_body (pieces settings text)
        obtain ⟨-, bound, hbound, hd⟩ := build_eq_ok.mp (build_bindings hvar hb)
        exact hd ▸ formed_functionOf hp (formed_of_parseBody hbound)
      have hnone : ∀ n ∈ freeNames (boundFunction dataParameter stmts).unnamed,
          (boundFunction dataParameter stmts).DeclaresLexically n := by
        intro n hn
        rw [show (boundFunction dataParameter stmts).unnamed = boundFunction dataParameter stmts
          from rfl, hfree] at hn
        cases hn
      -- No target is a stray one in a tree that was parsed.
      have hstray : .stray ∈ (boundFunction dataParameter stmts).mentions → False :=
        fun hm => (hformed.mentions _ .stray hm).1 rfl
      have cause := Fault.cause_of_apply hnone (fun _ hl => hl) hstray hf
      cases f with
      | notDefined n => exact ⟨n, rfl, cause⟩
      | invalidTarget => exact cause.elim
      | _ => cases hkind

/-- A template that reads a name before it declares it. -/
def lateLet : String := "<% y; let y %>"

/-- The declaration that `lateLet` does not reach is the one that its fault is about. -/
theorem lateLet_notDefined : Settings.standard.dataName = none ∧
    ∃ t, compile .standard lateLet = .ok t ∧ freeNames t.function = [] ∧
      t.render 60 .null = .error (.fault (.notDefined "y")) ∧
      t.function.DeclaresLexically "y" := by
  have hread : (readBody (bodyChars (pieces .standard lateLet))).toOption.map
      (fun stmts => (boundFunction dataParameter stmts).apply 60 .null) =
        some (.error (.fault (.notDefined "y"))) := by decide +kernel
  obtain ⟨stmts, source, -, -, hc, hf⟩ := compile_of_readBody hread rfl
  obtain ⟨hfree, hcause⟩ := (closed_of_compile rfl lateLet).2 _ hc
  obtain ⟨n, hn, hlex⟩ := hcause 60 .null _ hf rfl
  cases hn
  exact ⟨rfl, _, hc, hfree, hf, hlex⟩

end Template

end Stencil
