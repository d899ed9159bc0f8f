import Stencil.Proofs.Compile.Named
import Stencil.Proofs.Grammar.Faults

/-!
# Compile — where build errors are

A template that does not compile comes with the text of its definition and a position.  The position is
that of a place in the body, counted from the beginning of the body; in the definition a line stands
before the body, and the place is one line further down (`header_above_errors`).

`e.FoundAt before rest` says that an error is about what stands after `before` in a text: a token that
the parser cannot take there, or something that is no token.
-/

namespace Stencil
open Script Script.Parser Text

/-! ### Errors of texts -/

namespace Script

/-- Something in a text that an error is about, between what comes before it and the rest. -/
def ParseError.FoundAt (e : ParseError) (before rest : List Char) : Prop :=
  e.position = Position.start.through before rest ∧
    ((∀ p, readTokens ((before ++ rest).length + 1) [] ⟨before ++ rest, p⟩ =
        .error ⟨e.cause, p.through before rest⟩) ∨
      ∃ ts t next, tokens (String.ofList (before ++ rest)) = .ok ts ∧ t ∈ ts ∧
        t.position = e.position ∧ readToken ⟨rest, t.position⟩ = .ok (t.kind, next) ∧
        e.cause.Concerns t.kind)

/-- **What an error of a body is about.** -/
theorem foundAt_of_parseBody {source : String} {e : ParseError} (h : parseBody source = .error e) :
    ∃ before rest, source.toList = before ++ rest ∧ e.FoundAt before rest := by
  rcases tokens_located source with ⟨ts, htokens, hlocated⟩ | ⟨cause, before, rest, hsource, hfails⟩
  · have herror : (wholeBody ts.length).run ts = .error e := by
      rcases runOn_eq_error h with hlex | ⟨ts', hlex, hrun⟩
      · rw [htokens] at hlex
        cases hlex
      · rw [htokens] at hlex
        cases hlex
        exact hrun
    obtain ⟨t, ht, hpos, hcause⟩ := wholeBody_points (ended_of_tokens htokens) herror
    obtain ⟨before, rest, next, hsource, hplace, hread⟩ := hlocated t ht
    refine ⟨before, rest, hsource, hpos.trans hplace, .inr ⟨ts, t, next, ?_, ht, hpos.symm, hread, hcause⟩⟩
    rw [← hsource, String.ofList_toList]
    exact htokens
  · have htokens : tokens source = .error ⟨cause, Position.start.through before rest⟩ :=
      hfails [] .start
    rw [parseBody, runOn, htokens] at h
    cases h
    exact ⟨before, rest, hsource, rfl, .inl fun p => hsource ▸ hfails [] p⟩

end Script

/-! ### The line before the body -/

/-- The same column of the next line. -/
def Text.Position.below (p : Position) : Position :=
  ⟨p.line + 1, p.column⟩

namespace Text.Position

theorem through_below (p : Position) (before rest : List Char) :
    p.below.through before rest = (p.through before rest).below := by
  induction before generalizing p with
  | nil => rfl
  | cons c before ih =>
      have hafter : p.below.after c (before ++ rest) = (p.after c (before ++ rest)).below := by
        simp only [after, below]
        split
        · split <;> rfl
        · rfl
      rw [through, through, hafter, ih]

/-- What comes after a text matters to it only if a line feed comes first. -/
theorem through_before {x : List Char} (hx : x.head? ≠ some '\n') (p : Position)
    (before rest : List Char) : p.through before (rest ++ x) = p.through before rest := by
  induction before generalizing p with
  | nil => rfl
  | cons c before ih =>
      have hafter : p.after c (before ++ (rest ++ x)) = p.after c (before ++ rest) := by
        have hhead : (before ++ (rest ++ x)).head? = some '\n' ↔
            (before ++ rest).head? = some '\n' := by
          rw [← List.append_assoc]
          cases before ++ rest with
          | nil => exact ⟨fun h => absurd h hx, fun h => by cases h⟩
          | cons d l => rfl
        simp only [after, beq_iff_eq, Bool.and_eq_true, hhead]
      rw [through, through, hafter, ih]

end Text.Position

namespace Template

/-- The line before the body of a definition. -/
def headerLine (parameter : String) : List Char :=
  "function(".toList ++ (parameter.toList ++ ")\x7b".toList)

theorem toList_definitionText (parameter body : String) :
    (definitionText parameter body).toList =
      headerLine parameter ++ ['\n'] ++ (body.toList ++ ['\x7d']) := by
  have hopen : ")\x7b\n".toList = ")\x7b".toList ++ ['\n'] := by decide
  have hclose : "\x7d".toList = ['\x7d'] := by decide
  simp only [definitionText, String.toList_append]
  unfold headerLine
  rw [hopen, hclose]
  generalize "function(".toList = before
  generalize ")\x7b".toList = after
  simp only [List.append_assoc]

/-- The header of a definition is one line. -/
theorem through_headerLine {parameter : String} (hp : isName parameter = true) (rest : List Char) :
    Position.start.through (headerLine parameter ++ ['\n']) rest = Position.start.below := by
  have hline : ∀ c ∈ headerLine parameter, isLineEnd c = false := by
    refine List.forall_mem_append.mpr ⟨forall_of_all (by decide),
      List.forall_mem_append.mpr ⟨fun c hc => ?_, forall_of_all (by decide)⟩⟩
    exact not_isLineEnd_of_isNamePart (isNamePart_of_isName hp c hc)
  rw [Position.through_append, Position.through_unbroken _ hline]
  rfl

/-- **Build errors are reported one line above their place.** -/
theorem header_above_errors {settings : Settings} {text : String} {e : ParseError} {generated : String}
    (h : compile settings text = .error (.generation e generated))
    (hname : ∀ p, e.cause ≠ .invalidParameter p) :
    ∃ p before rest, generated.toList = headerLine p ++ ['\n'] ++ before ++ (rest ++ ['\x7d']) ∧
      before ++ rest = (Body.ofTemplate (pieces settings text)).toList ∧ e.FoundAt before rest ∧
      Position.start.through (headerLine p ++ ['\n'] ++ before) (rest ++ ['\x7d']) =
        ⟨e.position.line + 1, e.position.column⟩ := by
  obtain ⟨p, -, -, rfl, hbuild⟩ := compile_eq_error h
  rw [Definition.build] at hbuild
  split at hbuild
  · cases hbuild
    exact absurd rfl (hname _)
  · rename_i hnames
    have hp : isName p = true := by
      have := List.find?_eq_none.mp hnames p List.mem_cons_self
      simpa using this
    have hparse : parseBody (Body.ofTemplate (pieces settings text)) = .error e := by
      cases hb : parseBody (Body.ofTemplate (pieces settings text)) with
      | error e' =>
          rw [hb] at hbuild
          exact congrArg Except.error (Except.error.inj hbuild)
      | ok stmts => rw [hb] at hbuild; cases hbuild
    obtain ⟨before, rest, hsource, hfound⟩ := foundAt_of_parseBody hparse
    refine ⟨p, before, rest, ?_, hsource.symm, hfound, ?_⟩
    · simp only [toList_definitionText, hsource, List.append_assoc]
    · rw [Position.through_append, through_headerLine hp, Position.through_below,
        Position.through_before (by decide), ← hfound.1]
      rfl

/-- Where a build error of a body is reported. -/
def reported : Except Error Template → Option Position
  | .error (.generation ⟨.invalidParameter _, _⟩ _) => none
  | .error (.generation e _) => some e.position
  | _ => none

theorem exists_of_reported {r : Except Error Template} {p : Position} (h : reported r = some p) :
    ∃ e generated, r = .error (.generation e generated) ∧ (∀ name, e.cause ≠ .invalidParameter name) ∧
      e.position = p := by
  cases r with
  | ok t => cases h
  | error e =>
      cases e with
      | invalidVariable name => cases h
      | generation e generated =>
          obtain ⟨cause, position⟩ := e
          cases cause with
          | invalidParameter name => cases h
          | _ => exact ⟨_, generated, rfl, fun _ h => (by cases h), Option.some.inj h⟩

/-- A template with a block that is not closed. -/
def openBlock : String := "<% if (x) \x7b %>open"

/-- The end of the body of `openBlock` is reported on line six, and it is on line seven of the text that
comes with the error. -/
theorem header_above_errors_openBlock : ∃ e generated,
    compile .standard openBlock = .error (.generation e generated) ∧
    (∀ p, e.cause ≠ .invalidParameter p) ∧ e.position = ⟨6, 1⟩ ∧
    ∃ p before rest, generated.toList = headerLine p ++ ['\n'] ++ before ++ (rest ++ ['\x7d']) ∧
      e.FoundAt before rest ∧
      Position.start.through (headerLine p ++ ['\n'] ++ before) (rest ++ ['\x7d']) = ⟨7, 1⟩ := by
  have hrun : reported (compile .standard openBlock) = some ⟨6, 1⟩ := by decide +kernel
  obtain ⟨e, generated, hc, hname, hpos⟩ := exists_of_reported hrun
  obtain ⟨p, before, rest, hgenerated, -, hfound, hplace⟩ := header_above_errors hc hname
  rw [hpos] at hplace
  exact ⟨e, generated, hc, hname, hpos, p, before, rest, hgenerated, hfound, hplace⟩

end Template

end Stencil
