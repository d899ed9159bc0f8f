import Stencil.Proofs.Grammar.Local
import Stencil.Proofs.Grammar.Whole
import Stencil.Proofs.Tokens.Lexemes

/-!
# Grammar — where texts cannot be read

A text that is no body, or no function, is reported with the position of one of its tokens, and the cause
is one about this token (`wholeBody_points`, `wholeDefinition_points`).  A text with something that is no
token is reported where that stands.

`positions_counted`: the positions of the tokens and of the errors of a text are those that are counted
along the text.
-/

namespace Stencil.Script
open Stencil.Text

namespace Parser

/-- A parser of a whole text fails at a token if the parser of its inside does. -/
theorem points_whole {α : Type} {p : Parser α} {slack : Nat}
    (hp : ∀ C : Ending, C.Local slack Any p) {ts : List Token} {e : ParseError} (he : Ended ts)
    (h : (p >>= fun a => expectStop >>= fun _ => pure a).run ts = .error e) :
    ∃ t ∈ ts, e.position = t.position ∧ e.cause.Concerns t.kind := by
  obtain ⟨C, -⟩ := Ending.exists_beside he
  rw [run_bind] at h
  cases hr : p.run ts with
  | error e' =>
      rw [hr] at h
      cases h
      exact (hp C).points ts e he trivial hr
  | ok r =>
      obtain ⟨a, mid⟩ := r
      rw [hr] at h
      obtain ⟨hmid, hsuffix⟩ := (hp C).takes ts a mid he hr
      obtain ⟨t, rest, rfl⟩ := List.exists_cons_of_length_pos hmid.length_pos
      dsimp only at h
      rw [run_bind, run_expectStop] at h
      cases hs : (headKind (t :: rest)).isStop with
      | true => rw [hs] at h; cases h
      | false =>
          rw [hs] at h
          cases h
          exact ⟨t, hsuffix.mem List.mem_cons_self, rfl, rfl⟩

theorem wholeBody_points {bound : Nat} {ts : List Token} {e : ParseError} (he : Ended ts)
    (h : (wholeBody bound).run ts = .error e) :
    ∃ t ∈ ts, e.position = t.position ∧ e.cause.Concerns t.kind :=
  points_whole
    (fun _ => (Ending.levels_local bound maxNesting).statements false bound) he h

theorem definitionOnly_local (C : Ending) (bound : Nat) : C.Local 0 Any (definitionOnly bound) := by
  have definition := (Ending.levels_local (C := C) bound maxNesting).definitionRest (S := Any) bound
  exact .acceptKeyword (.acceptName (fun word => definition (some word))
    ((definition none).weaken fun _ _ => trivial)) .unexpected

/-- A whole definition is a function with the end after it. -/
theorem wholeDefinition_eq (bound : Nat) : wholeDefinition bound =
    (definitionOnly bound >>= fun d => expectStop >>= fun _ => pure d) := by
  rw [wholeDefinition, definitionOnly, bind_assoc]
  refine congrArg (acceptKeyword .function >>= ·) (funext fun begins => ?_)
  cases begins with
  | true => simp only [if_true, bind_assoc]
  | false => exact funext fun ts => by cases ts <;> rfl

theorem wholeDefinition_points {bound : Nat} {ts : List Token} {e : ParseError} (he : Ended ts)
    (h : (wholeDefinition bound).run ts = .error e) :
    ∃ t ∈ ts, e.position = t.position ∧ e.cause.Concerns t.kind :=
  points_whole (fun C => definitionOnly_local C bound) he (wholeDefinition_eq bound ▸ h)

end Parser

open Stencil.Script.Parser

/-- An error of a parser that runs on a text is one of reading the tokens or one of the parser. -/
theorem runOn_eq_error {α : Type} {parser : Nat → Parser α} {source : String} {e : ParseError}
    (h : runOn parser source = .error e) : tokens source = .error e ∨
      ∃ ts, tokens source = .ok ts ∧ (parser ts.length).run ts = .error e := by
  rcases except_bind_error h with hlex | ⟨ts, hlex, hparse⟩
  · exact .inl hlex
  · rcases except_bind_error hparse with hrun | ⟨r, -, hr⟩
    · exact .inr ⟨ts, hlex, hrun⟩
    · cases hr

/-- What cannot be read stands at a place of the text. -/
theorem counted_of_tokens_error {source : String} {e : ParseError} (h : tokens source = .error e) :
    ∃ before rest, source.toList = before ++ rest ∧ e.position = .counted before := by
  rcases tokens_located source with ⟨ts, htokens, -⟩ | ⟨cause, before, rest, hsource, hfails⟩
  · rw [htokens] at h
    cases h
  · rw [tokens, Cursor.start] at h
    rw [hfails [] .start] at h
    cases h
    obtain ⟨front, back, hplace, hposition⟩ := Position.exists_counted before rest
    exact ⟨front, back, hsource.trans hplace, hposition⟩

/-- A token stands at a place of the text. -/
theorem counted_of_mem {source : String} {ts : List Token} (h : tokens source = .ok ts) {t : Token}
    (ht : t ∈ ts) : ∃ before rest, source.toList = before ++ rest ∧ t.position = .counted before := by
  obtain ⟨lexemes, rfl, hlexemes⟩ := exists_lexemes h
  obtain ⟨lexeme, hlexeme, rfl⟩ := List.mem_map.mp ht
  obtain ⟨between, after, hsource, hstands⟩ := hlexemes.stands lexeme hlexeme
  exact ⟨between ++ lexeme.gap, lexeme.own ++ after, by simp [hsource, Lexeme.text], hstands.position⟩

/-- **Positions.**  The tokens of a text with the gaps between them are the text, each has the position
that is counted up to its own text, and their positions increase.  The position of an error is counted up
to a place of the text, and if the text has tokens, the token that the error is about stands there. -/
theorem positions_counted (source : String) :
    (∀ ts, tokens source = .ok ts →
      (∃ lexemes : List Lexeme, lexemes.map Lexeme.token = ts ∧ Lexemes [] source.toList lexemes) ∧
        ts.Pairwise fun t later => t.position.Before later.position) ∧
    ∀ e, tokens source = .error e ∨ parseBody source = .error e ∨ parseDefinition source = .error e →
      (∃ before rest, source.toList = before ++ rest ∧ e.position = .counted before) ∧
        ∀ ts, tokens source = .ok ts → ∃ t ∈ ts, e.position = t.position ∧ e.cause.Concerns t.kind := by
  refine ⟨fun ts htokens => ?_, fun e he => ?_⟩
  · obtain ⟨lexemes, rfl, hlexemes⟩ := exists_lexemes htokens
    exact ⟨⟨lexemes, rfl, hlexemes⟩, List.pairwise_map.mpr hlexemes.increasing⟩
  · have hcases : tokens source = .error e ∨ ∃ ts, tokens source = .ok ts ∧
        ∃ t ∈ ts, e.position = t.position ∧ e.cause.Concerns t.kind := by
      rcases he with hlex | hbody | hdefinition
      · exact .inl hlex
      · exact (runOn_eq_error hbody).imp id fun ⟨ts, htokens, hrun⟩ =>
          ⟨ts, htokens, wholeBody_points (ended_of_tokens htokens) hrun⟩
      · exact (runOn_eq_error hdefinition).imp id fun ⟨ts, htokens, hrun⟩ =>
          ⟨ts, htokens, wholeDefinition_points (ended_of_tokens htokens) hrun⟩
    rcases hcases with hlex | ⟨ts, htokens, t, ht, hposition, hcause⟩
    · refine ⟨counted_of_tokens_error hlex, fun ts htokens => ?_⟩
      rw [hlex] at htokens
      cases htokens
    · obtain ⟨before, rest, hsource, hplace⟩ := counted_of_mem htokens ht
      refine ⟨⟨before, rest, hsource, hposition.trans hplace⟩, fun ts' htokens' => ?_⟩
      rw [htokens] at htokens'
      cases htokens'
      exact ⟨t, ht, hposition, hcause⟩

/-- Lines that end with CR LF in a comment, after a backslash in a string, and after a comment; and U+2028
in the string. -/
def brokenLines : String := "a /*\r\n*/ = 'x\\\r\ny\u2028z' // c\r\n  + )"

/-- A string that is not closed before a CR LF. -/
def openString : String := "a\r\n 'b\r\nc"

/-- Where reading fails. -/
def failsAt {α : Type} : Except ParseError α → Option Position
  | .ok _ => none
  | .error e => some e.position

theorem exists_of_failsAt {α : Type} {r : Except ParseError α} {p : Position}
    (h : failsAt r = some p) :
    ∃ e, r = .error e ∧ e.position = p := by
  cases r with
  | ok a => cases h
  | error e => exact ⟨e, rfl, Option.some.inj h⟩

/-- The tokens of `brokenLines` are counted over all its line ends.  As a body it fails at the parenthesis,
and as a function at its beginning; `openString` fails at the CR LF. -/
theorem positions_counted_brokenLines :
    (∃ lexemes : List Lexeme, Lexemes [] brokenLines.toList lexemes ∧
      lexemes.map (fun lexeme => (lexeme.token.position, lexeme.token.newlineBefore)) =
        [(⟨1, 1⟩, false), (⟨2, 4⟩, true), (⟨2, 6⟩, false), (⟨5, 3⟩, true), (⟨5, 5⟩, false),
          (⟨5, 6⟩, false)]) ∧
    (failsAt (parseBody brokenLines) = some ⟨5, 5⟩ ∧
      ∃ before rest, brokenLines.toList = before ++ rest ∧ (⟨5, 5⟩ : Position) = .counted before) ∧
    (failsAt (parseDefinition brokenLines) = some ⟨1, 1⟩ ∧
      ∃ before rest, brokenLines.toList = before ++ rest ∧ (⟨1, 1⟩ : Position) = .counted before) ∧
    (failsAt (tokens openString) = some ⟨2, 4⟩ ∧
      ∃ before rest, openString.toList = before ++ rest ∧ (⟨2, 4⟩ : Position) = .counted before) := by
  have htokens : tokens brokenLines = .ok [⟨.name "a", ⟨1, 1⟩, false⟩, ⟨.sign .assign, ⟨2, 4⟩, true⟩,
      ⟨.string "xy\u2028z", ⟨2, 6⟩, false⟩, ⟨.sign .plus, ⟨5, 3⟩, true⟩,
      ⟨.sign .closeParen, ⟨5, 5⟩, false⟩, ⟨.stop, ⟨5, 6⟩, false⟩] := rfl
  have hbody : failsAt (parseBody brokenLines) = some ⟨5, 5⟩ := by decide +kernel
  have hdefinition : failsAt (parseDefinition brokenLines) = some ⟨1, 1⟩ := by decide +kernel
  have hopen : failsAt (tokens openString) = some ⟨2, 4⟩ := by decide +kernel
  refine ⟨?_, ⟨hbody, ?_⟩, ⟨hdefinition, ?_⟩, ⟨hopen, ?_⟩⟩
  · obtain ⟨⟨lexemes, hmap, hlexemes⟩, -⟩ := (positions_counted brokenLines).1 _ htokens
    have := congrArg (List.map fun t => (t.position, t.newlineBefore)) hmap
    rw [List.map_map] at this
    exact ⟨lexemes, hlexemes, this⟩
  · obtain ⟨e, he, hp⟩ := exists_of_failsAt hbody
    exact hp ▸ ((positions_counted brokenLines).2 e (.inr (.inl he))).1
  · obtain ⟨e, he, hp⟩ := exists_of_failsAt hdefinition
    exact hp ▸ ((positions_counted brokenLines).2 e (.inr (.inr he))).1
  · obtain ⟨e, he, hp⟩ := exists_of_failsAt hopen
    exact hp ▸ ((positions_counted openString).2 e (.inl he)).1

end Stencil.Script
