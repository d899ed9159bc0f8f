import Stencil.Proofs.Compile.Prelude
import Stencil.Proofs.Tokens.Ends

/-!
# Compile — directives inside a body

A template goes into the body of its function as text: literals between quotes, directives between
the signs and names that belong to their kind.  That is a splice of texts, and it is one of tokens as
well.  Each directive keeps the tokens that it has alone, each run of literals is one string, the text
as it was in the template, and between them stand the tokens of the body itself
(`kinds_ofPieces`).  No directive and no literal goes on into what surrounds it.

Two things have to be true of a directive.  It has tokens of its own; and the text of an expression does
not end in a comment to the end of its line, since the closing parenthesis stands on that line.  What
follows statements stands on a line of its own.
-/

namespace Stencil
open Script Script.Parser

namespace Template

/-- **A part of a template**: text as it stands there, or a directive. -/
inductive Part where
  | text (cs : List Char)
  | directive (kind : Directive) (inner : List Char)
  deriving DecidableEq, Repr

/-- The piece that a part is cut out as. -/
def Part.piece : Part → Piece
  | text cs => .literal (Literal.escape cs)
  | directive kind inner => .directive kind inner

/-! ### Tokens around directives -/

/-- The kinds of tokens of a text, without the end. -/
def textKinds (cs : List Char) : List TokenKind :=
  match tokens (String.ofList cs) with
  | .ok ts => (kinds ts).dropLast
  | .error _ => []

/-- The tokens of a body between a string and a directive. -/
def opening : Directive → List TokenKind
  | .evaluate => [.sign .semicolon]
  | _ => [.sign .plus, .sign .openParen, .sign .openParen, .name "__t", .sign .assign,
      .sign .openParen]

/-- The tokens of a body between a directive and the next string. -/
def closing : Directive → List TokenKind
  | .evaluate => [.name "__p", .sign .plusAssign]
  | .interpolate => [.sign .closeParen, .sign .closeParen, .sign .equal, .keyword .null,
      .sign .question, .string "", .sign .colon, .name "__t", .sign .closeParen, .sign .plus]
  | .escape => [.sign .closeParen, .sign .closeParen, .sign .equal, .keyword .null,
      .sign .question, .string "", .sign .colon, .name "_", .sign .dot, .name "escape",
      .sign .openParen, .name "__t", .sign .closeParen, .sign .closeParen, .sign .plus]

/-- The kinds of tokens from an open string on, in which `run` stands already. -/
def kindsAfter (run : List Char) : List Part → List TokenKind
  | [] => [.string (String.ofList run), .sign .semicolon]
  | .text cs :: parts => kindsAfter (run ++ cs) parts
  | .directive kind inner :: parts =>
    .string (String.ofList run) :: opening kind ++ textKinds inner ++ closing kind
      ++ kindsAfter [] parts

/-- **The kinds of tokens that parts become.** -/
def partKinds (parts : List Part) : List TokenKind :=
  .name "__p" :: .sign .plusAssign :: kindsAfter [] parts

/-! ### Parts that stay apart -/

/-- **Parts with tokens of their own**, in which no expression ends in a comment to the end of its
line. -/
def Part.Closed : Part → Prop
  | text _ => True
  | directive kind inner =>
    (∃ ts, tokens (String.ofList inner) = .ok ts) ∧ (kind ≠ .evaluate → ¬ OpenComment inner)

/-- The tokens that a text has alone. -/
def Alone (cs : List Char) (own : List Mark) : Prop :=
  ∃ rest newline, Reads cs own rest ∧ Over rest newline

theorem exists_alone {cs : List Char} {ts : List Token} (h : tokens (String.ofList cs) = .ok ts) :
    ∃ own, Alone cs own := by
  obtain ⟨own, rest, newline, hr, hover, -⟩ := reads_of_tokens h
  rw [String.toList_ofList] at hr
  exact ⟨own, rest, newline, hr, hover⟩

theorem Alone.textKinds {cs : List Char} {own : List Mark} (h : Alone cs own) :
    textKinds cs = own.map Prod.fst := by
  obtain ⟨rest, newline, hr, hover⟩ := h
  have hr' : Reads (String.ofList cs).toList own rest := by rwa [String.toList_ofList]
  obtain ⟨ts, hts, hmarks⟩ := tokens_of_reads hr' hover
  simp only [Template.textKinds, hts]
  rw [kinds_of_marks hmarks, List.map_append, List.map_cons, List.map_nil, List.dropLast_concat]

/-- Tokens of which the first begins a line. -/
def lined : List Mark → List Mark
  | [] => []
  | m :: ms => (m.1, true) :: ms

theorem map_lined (ms : List Mark) : (lined ms).map Prod.fst = ms.map Prod.fst := by
  cases ms <;> rfl

theorem reads_lined {cs rest : List Char} {own ms : List Mark} {m : Mark}
    (h : Reads cs (own ++ (m.1, true) :: ms) rest) :
    Reads ('\n' :: cs) (lined own ++ (m.1, true) :: ms) rest := by
  cases own with
  | nil => exact h.newline
  | cons m' own => exact h.newline

/-- The tokens of a directive in a body.  Statements begin on a line of their own. -/
def entered (kind : Directive) (own : List Mark) : List Mark :=
  if kind = .evaluate then lined own else own

/-- **The tokens from an open string on**: those of each directive as it has them alone.  What comes after
statements begins a line. -/
inductive Spliced : List Char → List Part → List Mark → Prop where
  | last {run : List Char} {newline : Bool} : Spliced run []
      [(.string (String.ofList run), newline), (.sign .semicolon, false)]
  | text {run cs : List Char} {parts : List Part} {ms : List Mark} : Spliced (run ++ cs) parts ms →
      Spliced run (.text cs :: parts) ms
  | directive {run inner : List Char} {newline : Bool} {kind : Directive} {parts : List Part}
      {own ms : List Mark} (before after : List Mark) : Alone inner own → before.map Prod.fst = opening kind →
      after.map Prod.fst = closing kind → (kind = .evaluate → ∀ m ∈ after.head?, m.2 = true) →
      Spliced [] parts ms → Spliced run (.directive kind inner :: parts)
        ((.string (String.ofList run), newline) ::
          (before ++ (entered kind own ++ (after ++ ms))))

theorem Spliced.kinds {run : List Char} {parts : List Part} {ms : List Mark}
    (h : Spliced run parts ms) : ms.map Prod.fst = kindsAfter run parts := by
  induction h with
  | last => rfl
  | text _ ih => exact ih
  | @directive run inner newline kind parts own ms before after hown hbefore hafter _ _ ih =>
      have hentered : (entered kind own).map Prod.fst = own.map Prod.fst := by
        rw [entered]
        split
        · exact map_lined own
        · rfl
      simp only [kindsAfter, List.map_cons, List.map_append, hbefore, hentered, hafter, ih,
        hown.textKinds, List.cons_append, List.append_assoc]

/-- The first token is the string, wherever a line begins. -/
theorem Spliced.exists_cons {run : List Char} {parts : List Part} {ms : List Mark}
    (h : Spliced run parts ms) : ∃ m rest, ms = m :: rest ∧
      ∀ newline, Spliced run parts ((m.1, newline) :: rest) := by
  induction h with
  | last => exact ⟨_, _, rfl, fun _ => .last⟩
  | text _ ih =>
      obtain ⟨m, rest, hms, h⟩ := ih
      exact ⟨m, rest, hms, fun newline => .text (h newline)⟩
  | directive before after hown hbefore hafter hline hms =>
      exact ⟨_, _, rfl, fun _ => .directive before after hown hbefore hafter hline hms⟩

/-! ### The text of a body -/

/-- The text from an open string on, to the end of its statement. -/
def textAfter (run : List Char) (parts : List Part) (rest : List Char) : List Char :=
  '\'' :: (Literal.escape run ++ ((parts.map Part.piece).flatMap Body.ofPiece ++
    '\'' :: ';' :: '\n' :: rest))

theorem textAfter_text (run cs : List Char) (parts : List Part) (rest : List Char) :
    textAfter run (.text cs :: parts) rest = textAfter (run ++ cs) parts rest := by
  have hpiece : Body.ofPiece (Part.text cs).piece = Literal.escape cs := rfl
  simp only [textAfter, List.map_cons, List.flatMap_cons, hpiece, Literal.escape,
    List.flatMap_append, List.append_assoc]

/-- A directive closes the string before it and opens the next one. -/
theorem textAfter_directive {kind : Directive} {inner before after : List Char}
    (h : Body.ofPiece (.directive kind inner) = '\'' :: (before ++ (inner ++ (after ++ ['\'']))))
    (run : List Char) (parts : List Part) (rest : List Char) :
    textAfter run (.directive kind inner :: parts) rest = '\'' :: (Literal.escape run ++
      '\'' :: (before ++ (inner ++ (after ++ textAfter [] parts rest)))) := by
  have hempty : Literal.escape [] = [] := rfl
  simp only [textAfter, List.map_cons, List.flatMap_cons, Part.piece, h, hempty, List.append_assoc,
    List.cons_append, List.nil_append]

theorem ofPiece_interpolate (inner : List Char) :
    Body.ofPiece (.directive .interpolate inner) = '\'' :: ("+\n((__t=(".toList ++ (inner ++
      ("))==null?'':__t)+\n".toList ++ ['\'']))) := by
  have before : "'+\n((__t=(".toList = '\'' :: "+\n((__t=(".toList := rfl
  have after : "))==null?'':__t)+\n'".toList = "))==null?'':__t)+\n".toList ++ ['\''] := rfl
  show "'+\n((__t=(".toList ++ inner ++ "))==null?'':__t)+\n'".toList = _
  rw [before, after, List.append_assoc, List.cons_append]

theorem ofPiece_escape (inner : List Char) :
    Body.ofPiece (.directive .escape inner) = '\'' :: ("+\n((__t=(".toList ++ (inner ++
      ("))==null?'':_.escape(__t))+\n".toList ++ ['\'']))) := by
  have before : "'+\n((__t=(".toList = '\'' :: "+\n((__t=(".toList := rfl
  have after : "))==null?'':_.escape(__t))+\n'".toList =
    "))==null?'':_.escape(__t))+\n".toList ++ ['\''] := rfl
  show "'+\n((__t=(".toList ++ inner ++ "))==null?'':_.escape(__t))+\n'".toList = _
  rw [before, after, List.append_assoc, List.cons_append]

theorem ofPiece_evaluate (inner : List Char) :
    Body.ofPiece (.directive .evaluate inner) = '\'' :: ([';', '\n'] ++ (inner ++
      ('\n' :: "__p+=".toList ++ ['\'']))) := by
  have before : "';\n".toList = '\'' :: [';', '\n'] := rfl
  have after : "\n__p+='".toList = '\n' :: "__p+=".toList ++ ['\''] := rfl
  show "';\n".toList ++ inner ++ "\n__p+='".toList = _
  rw [before, after, List.append_assoc, List.cons_append]

/-! ### Reading the text -/

/-- The tokens before an expression. -/
theorem reads_opening (x : List Char) : ∃ ms, ms.map Prod.fst = opening .interpolate ∧
    Reads ("+\n((__t=(".toList ++ x) ms x := by
  refine ⟨_, ?_, .cons rfl (.signBefore .plus (by decide)) <|
    .cons rfl (Next.alone .openParen (by decide) _).newline <|
    .cons rfl (.alone .openParen (by decide) _) <|
    .cons rfl (.nameBefore "__t" (by decide) (by decide)) <|
    .cons rfl (.signBefore .assign (by decide)) <|
    .cons rfl (.alone .openParen (by decide) _) .nil⟩
  rfl

/-- The tokens after an expression, up to what is written of its value. -/
theorem reads_comparison : ∃ m ms, (m :: ms).map Prod.fst = [.sign .closeParen, .sign .closeParen,
      .sign .equal, .keyword .null, .sign .question, .string "", .sign .colon] ∧
    ∀ x, Reads ("))==null?'':".toList ++ x) (m :: ms) x := by
  refine ⟨_, _, ?_, fun x => .cons rfl (.alone .closeParen (by decide) _) <|
    .cons rfl (.alone .closeParen (by decide) _) <|
    .cons rfl (.signBefore .equal (by decide)) <|
    .cons rfl (.wordBefore 'n' "ull".toList (by decide) (by decide) (by decide)) <|
    .cons rfl (.signBefore .question (by decide)) <| .cons rfl (.quoted [] _) <|
    .cons rfl (.alone .colon (by decide) _) .nil⟩
  rfl

/-- The tokens after an expression whose value is written as it is. -/
theorem reads_closing_interpolate : ∃ m ms, (m :: ms).map Prod.fst = closing .interpolate ∧
    ∀ x, Reads ("))==null?'':__t)+\n".toList ++ x) (m :: ms) ('\n' :: x) := by
  obtain ⟨m, ms, hkinds, hcs⟩ := reads_comparison
  refine ⟨m, ms ++ _, ?_, fun x => (hcs ("__t)+\n".toList ++ x)).append <|
    .cons rfl (.nameBefore "__t" (by decide) (by decide)) <|
    .cons rfl (.alone .closeParen (by decide) _) <|
    .cons rfl (.signBefore .plus (by decide)) .nil⟩
  rw [← List.cons_append, List.map_append, hkinds]
  rfl

/-- The tokens after an expression whose value is escaped. -/
theorem reads_closing_escape : ∃ m ms, (m :: ms).map Prod.fst = closing .escape ∧
    ∀ x, Reads ("))==null?'':_.escape(__t))+\n".toList ++ x) (m :: ms) ('\n' :: x) := by
  obtain ⟨m, ms, hkinds, hcs⟩ := reads_comparison
  refine ⟨m, ms ++ _, ?_, fun x => (hcs ("_.escape(__t))+\n".toList ++ x)).append <|
    .cons rfl (.nameBefore "_" (by decide) (by decide)) <|
    .cons rfl (.signBefore .dot (by decide)) <|
    .cons rfl (.nameBefore "escape" (by decide) (by decide)) <|
    .cons rfl (.alone .openParen (by decide) _) <|
    .cons rfl (.nameBefore "__t" (by decide) (by decide)) <|
    .cons rfl (.alone .closeParen (by decide) _) <|
    .cons rfl (.alone .closeParen (by decide) _) <|
    .cons rfl (.signBefore .plus (by decide)) .nil⟩
  rw [← List.cons_append, List.map_append, hkinds]
  rfl

/-- The tokens after statements. -/
theorem reads_closing_evaluate : ∃ m ms, (m :: ms).map Prod.fst = closing .evaluate ∧
    ∀ x, Reads ("__p+=".toList ++ '\'' :: x) (m :: ms) ('\'' :: x) := by
  refine ⟨_, _, ?_, fun x => .cons rfl (.nameBefore "__p" (by decide) (by decide)) <|
    .cons rfl (.signBefore .plusAssign (by decide)) .nil⟩
  rfl

section
variable {kind : Directive} {inner : List Char} (hclosed : (Part.directive kind inner).Closed)
  {z rest : List Char} {m : Mark} {ms : List Mark} (hz : Reads z (m :: ms) rest)
include hclosed hz

/-- An expression between its parentheses. -/
theorem reads_expression (hkind : kind ≠ .evaluate) {cs : List Char} {first : Mark}
    {more : List Mark} (hcs : ∀ y, Reads (cs ++ y) (first :: more) ('\n' :: y))
    (hx : Apart (cs ++ z)) : ∃ before own newline, before.map Prod.fst = opening .interpolate ∧
      Alone inner own ∧ Reads ("+\n((__t=(".toList ++ (inner ++ (cs ++ z)))
        (before ++ (own ++ ((first.1, newline || first.2) :: more ++ (m.1, true) :: ms))) rest := by
  obtain ⟨⟨ts, htokens⟩, hopen⟩ := hclosed
  obtain ⟨own, after, newline, hown, hover⟩ := exists_alone htokens
  obtain ⟨before, hbefore, hr⟩ := reads_opening (inner ++ (cs ++ z))
  exact ⟨before, own, newline, hbefore, ⟨after, newline, hown, hover⟩,
    hr.append (hown.followed hover (hopen hkind) hx ((hcs z).append hz.newline))⟩

/-- Statements on lines of their own. -/
theorem reads_statements : ∃ own, Alone inner own ∧ Reads ('\n' :: (inner ++ '\n' :: z))
    (lined own ++ (m.1, true) :: ms) rest := by
  obtain ⟨⟨ts, htokens⟩, -⟩ := hclosed
  obtain ⟨own, after, newline, hown, hover⟩ := exists_alone htokens
  exact ⟨own, ⟨after, newline, hown, hover⟩, reads_lined (hown.lineFed hover hz)⟩

end

/-- **A body as tokens.**  Parts with tokens of their own are read one after the other. -/
theorem reads_textAfter {parts : List Part} (hclosed : ∀ part ∈ parts, part.Closed)
    (run x : List Char) :
    ∃ ms, Spliced run parts ms ∧ Reads (textAfter run parts x) ms ('\n' :: x) := by
  induction parts generalizing run with
  | nil =>
      exact ⟨_, .last, .cons rfl (.quoted run _)
        (.cons rfl (.alone .semicolon (by decide) _) .nil)⟩
  | cons part parts ih =>
      have hpart := hclosed part List.mem_cons_self
      have hrest : ∀ part ∈ parts, part.Closed := fun p hp => hclosed p (List.mem_cons_of_mem _ hp)
      cases part with
      | text cs =>
          obtain ⟨ms, hms, hr⟩ := ih hrest (run ++ cs)
          exact ⟨ms, .text hms, by rwa [textAfter_text]⟩
      | directive kind inner =>
          obtain ⟨ms, hms, hr⟩ := ih hrest []
          obtain ⟨m, ms, rfl, hagain⟩ := hms.exists_cons
          cases kind with
          | interpolate =>
              obtain ⟨first, more, hclose, hcs⟩ := reads_closing_interpolate
              obtain ⟨before, own, newline, hbefore, hown, h⟩ :=
                reads_expression hpart hr nofun hcs (.cons (c := ')') (by decide))
              rw [textAfter_directive (ofPiece_interpolate inner)]
              exact ⟨_, .directive before ((first.1, newline || first.2) :: more) hown hbefore hclose
                (fun h => by cases h) (hagain true), .cons rfl (.quoted run _) h⟩
          | escape =>
              obtain ⟨first, more, hclose, hcs⟩ := reads_closing_escape
              obtain ⟨before, own, newline, hbefore, hown, h⟩ :=
                reads_expression hpart hr nofun hcs (.cons (c := ')') (by decide))
              rw [textAfter_directive (ofPiece_escape inner)]
              exact ⟨_, .directive before ((first.1, newline || first.2) :: more) hown hbefore hclose
                (fun h => by cases h) (hagain true), .cons rfl (.quoted run _) h⟩
          | evaluate =>
              obtain ⟨first, more, hclose, hcs⟩ := reads_closing_evaluate
              obtain ⟨own, hown, h⟩ := reads_statements hpart ((hcs _).append hr)
              rw [textAfter_directive (ofPiece_evaluate inner)]
              exact ⟨_, .directive [(.sign .semicolon, false)] ((first.1, true) :: more) hown rfl hclose
                (fun _ m hm => by cases hm; rfl) hms,
                .cons rfl (.quoted run _) (.cons rfl (.alone .semicolon (by decide) _) h)⟩

/-- **The text of a body as tokens**: a name, a sign, and the parts. -/
theorem reads_ofPieces {parts : List Part} (hclosed : ∀ part ∈ parts, part.Closed) :
    ∃ first ms, first.map Prod.fst = closing .evaluate ∧ Spliced [] parts ms ∧
      Reads (Body.ofPieces (parts.map Part.piece)).toList (first ++ ms) ['\n'] := by
  obtain ⟨ms, hms, hr⟩ := reads_textAfter hclosed [] []
  obtain ⟨first, more, hfirst, hcs⟩ := reads_closing_evaluate
  have htext : (Body.ofPieces (parts.map Part.piece)).toList =
      "__p+=".toList ++ textAfter [] parts [] := by
    have hopen : "__p+='".toList = "__p+=".toList ++ ['\''] := rfl
    rw [show Body.ofPieces (parts.map Part.piece) = String.ofList ("__p+='".toList ++
      (parts.map Part.piece).flatMap Body.ofPiece ++ "';\n".toList) from rfl, String.toList_ofList,
      hopen, List.append_assoc, List.append_assoc]
    rfl
  refine ⟨first :: more, ms, hfirst, hms, ?_⟩
  rw [htext]
  exact (hcs _).append hr

/-- **Directives stay apart.**  The text of a body has the tokens of its parts, each as it has them
alone, and one string for each run of text. -/
theorem kinds_ofPieces {parts : List Part} (hclosed : ∀ part ∈ parts, part.Closed) :
    ∃ ts, tokens (Body.ofPieces (parts.map Part.piece)) = .ok ts ∧
      kinds ts = partKinds parts ++ [.stop] := by
  obtain ⟨first, ms, hfirst, hms, hr⟩ := reads_ofPieces hclosed
  have hover : Over ['\n'] true := fun p => ⟨_, rfl⟩
  obtain ⟨ts, hts, hmarks⟩ := tokens_of_reads hr hover
  refine ⟨ts, hts, ?_⟩
  rw [kinds_of_marks hmarks, List.map_append, List.map_append, hfirst, hms.kinds]
  rfl

/-- Parts of a template with a quote and a line end in its text, and a comment in each directive. -/
def commentedParts : List Part :=
  [.text "it's".toList, .text "\n".toList, .directive .interpolate "a/*)*/".toList,
   .directive .evaluate "if(b)\x7b//".toList, .text "c".toList, .directive .evaluate "\x7d".toList]

/-- They become one string for the text before the first directive, and nothing is lost in the
comments. -/
theorem kinds_ofPieces_commentedParts : (∀ part ∈ commentedParts, part.Closed) ∧
    ∃ ts, tokens (Body.ofPieces (commentedParts.map Part.piece)) = .ok ts ∧ kinds ts =
      [.name "__p", .sign .plusAssign, .string "it's\n"] ++ opening .interpolate ++ [.name "a"] ++
      closing .interpolate ++ [.string "", .sign .semicolon, .keyword .if, .sign .openParen,
      .name "b", .sign .closeParen, .sign .openBrace, .name "__p", .sign .plusAssign, .string "c",
      .sign .semicolon, .sign .closeBrace, .name "__p", .sign .plusAssign, .string "",
      .sign .semicolon, .stop] := by
  have hclosed : ∀ part ∈ commentedParts, part.Closed := by
    have tokenized {s : String} (h : (tokens s).toOption.isSome = true) : ∃ ts, tokens s = .ok ts := by
      cases hs : tokens s with
      | ok ts => exact ⟨ts, rfl⟩
      | error e => rw [hs] at h; cases h
    intro part hpart
    simp only [commentedParts, List.mem_cons, List.not_mem_nil, or_false] at hpart
    rcases hpart with rfl | rfl | rfl | rfl | rfl | rfl
    · trivial
    · trivial
    · exact ⟨tokenized (by decide +kernel), fun _ => CommentsEnd.not_open (by decide +kernel)⟩
    · exact ⟨tokenized (by decide +kernel), fun h => absurd rfl h⟩
    · trivial
    · exact ⟨tokenized (by decide +kernel), fun h => absurd rfl h⟩
  obtain ⟨ts, hts, hkinds⟩ := kinds_ofPieces hclosed
  exact ⟨hclosed, ts, hts, hkinds.trans rfl⟩

end Template
end Stencil
