import Stencil.Proofs.Compile.Spliced
import Stencil.Proofs.Sheets.Basic

/-!
# Sheets — the script of a sheet

The text of a sheet is cut at its directives (`Sheet.pieces_text`), and what the pieces become is a
script with the structure of the sheet: a statement for each line, and around it the statements that
open and close choices and repetitions (`Sheet.script_branch`, `Sheet.script_each`).
-/

namespace Stencil
open Script

/-! ### Cutting the text of a sheet -/

/-- The kind of a value's directive. -/
def Segment.kind (segment : Segment) : Directive :=
  if segment.escapes then .escape else .interpolate

/-- A value as a directive, and the text after it. -/
def Segment.cut (segment : Segment) : Piece.Cut :=
  ⟨segment.kind, segment.phrase.text.toList, segment.after.text.toList⟩

/-- The statement that begins a choice. -/
def ifText (test : Phrase) : List Char :=
  " if (".toList ++ (test.text.toList ++ ") \x7b ".toList)

/-- What stands between the two sides of a choice. -/
def elseText : List Char :=
  " \x7d else \x7b ".toList

/-- The statement that begins a repetition. -/
def forText (name : LoopName) (subject : Phrase) : List Char :=
  " for (let ".toList ++ (name.word.toList ++ (" of ".toList ++ (subject.text.toList ++
    ") \x7b ".toList)))

/-- What ends a choice or a repetition. -/
def endText : List Char :=
  " \x7d ".toList

namespace Sheet

/-- The text that a sheet begins with. -/
def first : Sheet → Verbatim
  | line l => l.first
  | branch l _ _ _ _ => l.first
  | each l _ _ _ _ => l.first

/-- The directives of a sheet. -/
def cuts : Sheet → List Piece.Cut
  | line l => l.segments.map Segment.cut
  | branch l test yes no rest =>
    l.segments.map Segment.cut ++
      ⟨.evaluate, ifText test, yes.first.text.toList⟩ :: (yes.cuts ++
      ⟨.evaluate, elseText, no.first.text.toList⟩ :: (no.cuts ++
      ⟨.evaluate, endText, rest.first.text.toList⟩ :: rest.cuts))
  | each l name subject body rest =>
    l.segments.map Segment.cut ++
      ⟨.evaluate, forText name subject, body.first.text.toList⟩ :: (body.cuts ++
      ⟨.evaluate, endText, rest.first.text.toList⟩ :: rest.cuts)

end Sheet

theorem Segment.toList_text (segment : Segment) : segment.text.toList = segment.cut.text := by
  cases h : segment.escapes <;>
    simp [Segment.text, cut, Segment.kind, h, Piece.Cut.text, Piece.written, Pattern.opening,
      Delimiter.standardMark]

theorem Line.toList_text (line : Line) : line.text.toList =
    line.first.text.toList ++ (line.segments.map Segment.cut).flatMap Piece.Cut.text := by
  obtain ⟨first, segments⟩ := line
  have hjoin : (String.join (segments.map Segment.text)).toList =
      (segments.map Segment.cut).flatMap Piece.Cut.text := by
    induction segments with
    | nil => rfl
    | cons segment segments ih =>
        rw [List.map_cons, String.join_cons, String.toList_append, segment.toList_text, ih]
        rfl
  rw [Line.text, String.toList_append, hjoin]

theorem toList_statement (part : String) :
    (statement part).toList = Piece.written .evaluate part.toList := by
  rw [statement, String.toList_append, String.toList_append, List.append_assoc]
  rfl

theorem toList_ifText (test : Phrase) :
    (" if (" ++ test.text ++ ") \x7b ").toList = ifText test := by
  rw [String.toList_append, String.toList_append, List.append_assoc]
  rfl

theorem toList_forText (name : LoopName) (subject : Phrase) :
    (" for (let " ++ name.word ++ " of " ++ subject.text ++ ") \x7b ").toList =
      forText name subject := by
  simp only [String.toList_append, List.append_assoc]
  rfl

namespace Sheet

theorem toList_text (sheet : Sheet) :
    sheet.text.toList = sheet.first.text.toList ++ sheet.cuts.flatMap Piece.Cut.text := by
  have helse : " \x7d else \x7b ".toList = elseText := rfl
  have hend : " \x7d ".toList = endText := rfl
  have append := @String.toList_append
  induction sheet with
  | line l => exact l.toList_text
  | branch l test yes no rest yes_ih no_ih rest_ih =>
      have hif := toList_ifText test
      rw [text, append, append, append, append, append, append, toList_statement, toList_statement,
        toList_statement, hif, helse, hend, l.toList_text, yes_ih, no_ih, rest_ih]
      simp only [cuts, first, List.flatMap_append, List.flatMap_cons, Piece.Cut.text,
        List.append_assoc]
  | each l name subject body rest body_ih rest_ih =>
      have hfor := toList_forText name subject
      rw [text, append, append, append, append, toList_statement, toList_statement, hfor, hend,
        l.toList_text, body_ih, rest_ih]
      simp only [cuts, first, List.flatMap_append, List.flatMap_cons, Piece.Cut.text,
        List.append_assoc]

end Sheet

/-! ### Finding the directives -/

theorem Script.Expresses.ne_nil {text : String} {e : Expr} (h : Expresses text e) :
    text.toList ≠ [] := by
  intro hnil
  obtain ⟨room, h⟩ := h
  obtain rfl : text = "" := String.toList_inj.mp hnil
  obtain ⟨ts, htokens, h⟩ := except_bind_ok h
  obtain ⟨⟨e', rest⟩, hrun, -⟩ := except_bind_ok h
  obtain ⟨e', mid, hrun, -⟩ := Parser.run_bind_ok hrun
  have hended := ended_of_tokens htokens
  obtain ⟨C, -⟩ := Parser.Ending.exists_beside hended
  obtain ⟨-, hmid, hlen⟩ :=
    (@Parser.levels_follow_self C ts.length room).assignment.left ts e' mid hended (Nat.le_refl _)
      trivial hrun
  obtain ⟨t, rfl⟩ : ∃ t, ts = [t] := ⟨_, (Except.ok.inj htokens).symm⟩
  have := hmid.length_pos
  rw [List.length_singleton] at hlen
  omega

theorem LoopName.percent_not_mem (name : LoopName) : '%' ∉ name.word.toList := by
  obtain ⟨c, cs, hword, hc, hcs, -⟩ := isName_iff name.isName
  have hpercent : isNamePart '%' = false := by decide
  intro hm
  rw [hword] at hm
  rcases List.mem_cons.mp hm with rfl | hm
  · exact absurd hc (by decide)
  · rw [List.all_eq_true.mp hcs _ hm] at hpercent
    cases hpercent

theorem Segment.clear (segment : Segment) : segment.cut.Clear where
  fits := ⟨segment.phrase.expresses.ne_nil, segment.phrase.unmarked, fun h => by
    cases he : segment.escapes <;> simp [Segment.cut, Segment.kind, he] at h⟩
  after := segment.after.unmarked

theorem Phrase.unmarked_append (phrase : Phrase) :
    Avoids '%' '>' (phrase.text.toList ++ ") \x7b ".toList) :=
  .append phrase.unmarked (.of_not_mem (by decide)) (by decide)

theorem fits_ifText (test : Phrase) : Piece.Fits .evaluate (ifText test) where
  ne_nil := nofun
  unmarked := .of_append (by decide) test.unmarked_append
  first _ := ⟨nofun, nofun⟩

theorem fits_forText (name : LoopName) (subject : Phrase) :
    Piece.Fits .evaluate (forText name subject) where
  ne_nil := nofun
  unmarked := .of_append (by decide) (.of_append name.percent_not_mem
    (.of_append (by decide) subject.unmarked_append))
  first _ := ⟨nofun, nofun⟩

theorem fits_elseText : Piece.Fits .evaluate elseText where
  ne_nil := nofun
  unmarked := .of_not_mem (by decide)
  first _ := ⟨by decide, by decide⟩

theorem fits_endText : Piece.Fits .evaluate endText where
  ne_nil := nofun
  unmarked := .of_not_mem (by decide)
  first _ := ⟨by decide, by decide⟩

namespace Sheet

theorem clear (sheet : Sheet) : ∀ cut ∈ sheet.cuts, cut.Clear := by
  have line : ∀ l : Line, ∀ cut ∈ l.segments.map Segment.cut, cut.Clear := by
    intro l cut hc
    obtain ⟨segment, -, rfl⟩ := List.mem_map.mp hc
    exact segment.clear
  induction sheet with
  | line l => exact line l
  | branch l test yes no rest yes_ih no_ih rest_ih =>
      simp only [cuts, List.forall_mem_append, List.forall_mem_cons]
      exact ⟨line l, ⟨fits_ifText test, yes.first.unmarked⟩, yes_ih,
        ⟨fits_elseText, no.first.unmarked⟩, no_ih, ⟨fits_endText, rest.first.unmarked⟩, rest_ih⟩
  | each l name subject body rest body_ih rest_ih =>
      simp only [cuts, List.forall_mem_append, List.forall_mem_cons]
      exact ⟨line l, ⟨fits_forText name subject, body.first.unmarked⟩, body_ih,
        ⟨fits_endText, rest.first.unmarked⟩, rest_ih⟩

/-- **The pieces of a sheet's text** are those that its structure shows. -/
theorem pieces_text (sheet : Sheet) (name : Option String) :
    Template.pieces { Settings.standard with dataName := name } sheet.text =
      Piece.ofText sheet.first.text.toList ++ sheet.cuts.flatMap Piece.Cut.pieces := by
  rw [Template.pieces, Piece.ofTemplate, Piece.find_standard, toList_text]
  exact Piece.all_cuts sheet.first.unmarked sheet.clear none

end Sheet

/-! ### The script -/

open Template

/-- The parts that directives and the text between them are. -/
def cutParts (cuts : List Piece.Cut) : List Template.Part :=
  cuts.flatMap fun cut => [.directive cut.kind cut.inner, .text cut.after]

/-- The statements that write a text and what is cut from it, with more text after them. -/
def scriptOf (first : List Char) (cuts : List Piece.Cut) (rest : List Char) : List Char :=
  "__p+=".toList ++ textAfter first (cutParts cuts) rest

theorem ofPiece_ofText (text : List Char) :
    (Piece.ofText text).flatMap Body.ofPiece = Literal.escape text := by
  cases text with
  | nil => rfl
  | cons c text => exact List.append_nil _

theorem toList_ofPieces (first : List Char) (cuts : List Piece.Cut) (rest : List Char) :
    (Body.ofPieces (Piece.ofText first ++ cuts.flatMap Piece.Cut.pieces)).toList ++ rest =
      scriptOf first cuts rest := by
  have hcuts : (cuts.flatMap Piece.Cut.pieces).flatMap Body.ofPiece =
      ((cutParts cuts).map Template.Part.piece).flatMap Body.ofPiece := by
    induction cuts with
    | nil => rfl
    | cons cut cuts ih =>
        rw [List.flatMap_cons, List.flatMap_append, ih, Piece.Cut.pieces, List.flatMap_cons,
          ofPiece_ofText]
        simp only [cutParts, List.flatMap_cons, List.map_append, List.map_cons, List.map_nil,
          List.flatMap_append, List.flatMap_nil, List.append_nil, Template.Part.piece, List.append_assoc]
        rfl
  have hofPieces : Body.ofPieces (Piece.ofText first ++ cuts.flatMap Piece.Cut.pieces) =
      String.ofList ("__p+='".toList ++ (Piece.ofText first ++
        cuts.flatMap Piece.Cut.pieces).flatMap Body.ofPiece ++ "';\n".toList) := rfl
  rw [hofPieces, String.toList_ofList, List.flatMap_append, ofPiece_ofText, hcuts,
    List.append_assoc, List.append_assoc, List.append_assoc]
  rfl

/-- Statements end the line before them and begin a new one. -/
theorem scriptOf_evaluate (first : List Char) (cuts : List Piece.Cut) (inner after : List Char)
    (more : List Piece.Cut) (rest : List Char) :
    scriptOf first (cuts ++ ⟨.evaluate, inner, after⟩ :: more) rest =
      scriptOf first cuts (inner ++ '\n' :: scriptOf after more rest) := by
  have hpiece := ofPiece_evaluate inner
  have htext : Body.ofPiece (.literal (Literal.escape after)) = Literal.escape after := rfl
  simp only [scriptOf, textAfter, cutParts, List.flatMap_append, List.flatMap_cons, List.map_append,
    List.map_cons, Template.Part.piece, hpiece, htext, List.append_assoc, List.cons_append, List.nil_append]

/-- The statement that writes a line. -/
def Line.script (line : Line) (rest : List Char) : List Char :=
  scriptOf line.first.text.toList (line.segments.map Segment.cut) rest

namespace Sheet

/-- The script that a sheet becomes, with more text after it. -/
def script (sheet : Sheet) (rest : List Char) : List Char :=
  scriptOf sheet.first.text.toList sheet.cuts rest

theorem script_branch (l : Line) (test : Phrase) (yes no sheet : Sheet) (rest : List Char) :
    (branch l test yes no sheet).script rest =
      l.script (ifText test ++ '\n' :: yes.script (elseText ++ '\n' :: no.script (endText ++
        '\n' :: sheet.script rest))) := by
  rw [script, cuts, scriptOf_evaluate, scriptOf_evaluate, scriptOf_evaluate]
  rfl

theorem script_each (l : Line) (name : LoopName) (subject : Phrase) (body sheet : Sheet)
    (rest : List Char) : (each l name subject body sheet).script rest =
      l.script (forText name subject ++ '\n' :: body.script (endText ++
        '\n' :: sheet.script rest)) := by
  rw [script, cuts, scriptOf_evaluate, scriptOf_evaluate]
  rfl

end Sheet

end Stencil
