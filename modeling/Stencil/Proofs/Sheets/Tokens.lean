import Stencil.Proofs.Sheets.Script

/-!
# Sheets — the tokens of a sheet

The script of a sheet read as tokens (`Sheet.reads`).  Expressions keep the tokens that they have
alone, and of all others only the kinds matter.
-/

namespace Stencil
open Script Template

/-! ### Expressions -/

/-- The tokens of an expression, and of the known kinds before and after it. -/
def Phrase.Between (phrase : Phrase) (before after : List TokenKind) (ms : List Mark) : Prop :=
  ∃ ms₁ own ms₂, ms = ms₁ ++ (own ++ ms₂) ∧ ms₁.map Prod.fst = before ∧
    Alone phrase.text.toList own ∧ ms₂.map Prod.fst = after

theorem Phrase.exists_tokens (phrase : Phrase) :
    ∃ ts, tokens (String.ofList phrase.text.toList) = .ok ts := by
  obtain ⟨_, ts, _, htokens, -, -⟩ := phrase.expresses.exists_run
  exact ⟨ts, by rwa [String.ofList_toList]⟩

theorem Segment.closed (segment : Segment) :
    (Template.Part.directive segment.kind segment.phrase.text.toList).Closed :=
  ⟨segment.phrase.exists_tokens, fun _ => segment.phrase.closed⟩

/-- An expression in the parentheses of a statement that goes on in braces. -/
theorem Phrase.reads_header (phrase : Phrase) {cs : List Char} {m : Mark} {ms : List Mark}
    (h : ∀ {x m' ms' r}, Reads x (m' :: ms') r → Reads (cs ++ x) (m :: ms ++ m' :: ms') r)
    (z : List Char) :
    ∃ ms', phrase.Between ((m :: ms).map Prod.fst) [.sign .closeParen, .sign .openBrace] ms' ∧
      Reads ('\n' :: (cs ++ (phrase.text.toList ++ (") \x7b ".toList ++ z)))) ms' (' ' :: z) := by
  obtain ⟨ts, htokens⟩ := phrase.exists_tokens
  obtain ⟨own, hown⟩ := exists_alone htokens
  have halone := hown
  obtain ⟨rest, newline, hr, hover⟩ := hown
  have close : Reads (") \x7b ".toList ++ z)
      ((.sign .closeParen, false) :: [(.sign .openBrace, false)]) (' ' :: z) :=
    .cons rfl (.alone .closeParen (by decide) _)
      (.cons rfl (Next.alone .openBrace (by decide) _).space .nil)
  have inner := hr.followed hover phrase.closed (.cons (by decide)) close
  refine ⟨_, ⟨(m.1, true) :: ms, own, [(.sign .closeParen, newline || false),
    (.sign .openBrace, false)], rfl, rfl, halone, rfl⟩, ?_⟩
  cases own with
  | nil => exact (h inner).newline
  | cons m' own => exact (h inner).newline

/-- The tokens of the statement that begins a choice. -/
def IfMarks (test : Phrase) : List Mark → Prop :=
  test.Between [.keyword .if, .sign .openParen] [.sign .closeParen, .sign .openBrace]

theorem reads_ifText (test : Phrase) (z : List Char) :
    ∃ ms, IfMarks test ms ∧ Reads ('\n' :: (ifText test ++ z)) ms (' ' :: z) := by
  have opens : ∀ x, Reads (" if (".toList ++ x) [(.keyword .if, false), (.sign .openParen, false)] x :=
    fun x => .cons rfl (.space (.wordBefore 'i' ['f'] (by decide) (by decide)
      (by decide))) (.cons rfl (Next.alone .openParen (by decide) x).space .nil)
  obtain ⟨ms, hms, hr⟩ := test.reads_header (fun h => (opens _).append h) z
  refine ⟨ms, hms, ?_⟩
  rw [ifText, List.append_assoc, List.append_assoc]
  exact hr

/-- The tokens of the statement that begins a repetition. -/
def ForMarks (name : LoopName) (subject : Phrase) : List Mark → Prop :=
  subject.Between [.keyword .for, .sign .openParen, .keyword .let, .name name.word, .name "of"]
    [.sign .closeParen, .sign .openBrace]

theorem reads_forText (name : LoopName) (subject : Phrase) (z : List Char) :
    ∃ ms, ForMarks name subject ms ∧
      Reads ('\n' :: (forText name subject ++ z)) ms (' ' :: z) := by
  have opens : ∀ x, Reads (" for (let ".toList ++ (name.word.toList ++ (" of ".toList ++ x)))
      [(.keyword .for, false), (.sign .openParen, false), (.keyword .let, false),
        (.name name.word, false), (.name "of", false)] (' ' :: x) := fun x =>
    .cons rfl (.space (.wordBefore 'f' ['o', 'r'] (by decide) (by decide)
      (by decide))) <|
    .cons rfl (Next.alone .openParen (by decide) _).space <|
    .cons rfl (.wordBefore 'l' ['e', 't'] (by decide) (by decide)
      (by decide)) <|
    .cons rfl (Next.nameBefore _ name.isName (by decide)).space <|
    .cons rfl (.space (.nameBefore "of" (by decide) (by decide))) .nil
  have before : ∀ {x m ms r}, Reads x (m :: ms) r →
      Reads ((" for (let ".toList ++ (name.word.toList ++ " of ".toList)) ++ x)
        ((.keyword .for, false) :: [(.sign .openParen, false), (.keyword .let, false),
          (.name name.word, false), (.name "of", false)] ++ m :: ms) r := by
    intro x m ms r h
    rw [List.append_assoc, List.append_assoc]
    exact (opens x).append h.space
  obtain ⟨ms, hms, hr⟩ := subject.reads_header before z
  refine ⟨ms, hms, ?_⟩
  have regroup : ∀ a b c d e : List Char,
      a ++ (b ++ (c ++ (d ++ e))) ++ z = (a ++ (b ++ c)) ++ (d ++ (e ++ z)) := by
    intro a b c d e
    simp only [List.append_assoc]
  exact (congrArg (fun cs => Reads ('\n' :: cs) ms (' ' :: z)) (regroup _ _ _ _ _)).mpr hr

/-! ### Lines and sheets -/

/-- The tokens of the statement that writes a line. -/
def Line.Marks (line : Line) (ms : List Mark) : Prop :=
  ∃ newline newline' ms', ms = (.name "__p", newline) :: (.sign .plusAssign, newline') :: ms' ∧
    Spliced line.first.text.toList (cutParts (line.segments.map Segment.cut)) ms'

theorem Line.reads (line : Line) (x : List Char) :
    ∃ m ms, line.Marks (m :: ms) ∧ Reads ('\n' :: line.script x) (m :: ms) ('\n' :: x) := by
  have closed : ∀ part ∈ cutParts (line.segments.map Segment.cut), part.Closed := by
    intro part hpart
    obtain ⟨cut, hcut, hpart⟩ := List.mem_flatMap.mp hpart
    obtain ⟨segment, -, rfl⟩ := List.mem_map.mp hcut
    simp only [List.mem_cons, List.not_mem_nil, or_false] at hpart
    rcases hpart with rfl | rfl
    · exact segment.closed
    · trivial
  obtain ⟨ms, hms, hr⟩ := reads_textAfter closed line.first.text.toList x
  refine ⟨_, _, ⟨true, false, ms, rfl, hms⟩, ?_⟩
  exact .cons rfl (Next.nameBefore "__p" (by decide) (by decide)).newline
    (.cons rfl (.signBefore .plusAssign (by decide)) hr)

/-- **The tokens of a sheet.** -/
inductive Sheet.Marks : Sheet → List Mark → Prop where
  | line {l : Line} {ms : List Mark} : l.Marks ms → Marks (line l) ms
  | branch {l : Line} {test : Phrase} {yes no rest : Sheet}
      {ms ms₁ ms₂ ms₃ ms₄ ms₅ ms₆ : List Mark} : l.Marks ms → IfMarks test ms₁ → yes.Marks ms₂ →
      ms₃.map Prod.fst = [.sign .closeBrace, .keyword .else, .sign .openBrace] → no.Marks ms₄ →
      ms₅.map Prod.fst = [.sign .closeBrace] → rest.Marks ms₆ →
      Marks (branch l test yes no rest) (ms ++ (ms₁ ++ (ms₂ ++ (ms₃ ++ (ms₄ ++ (ms₅ ++ ms₆))))))
  | each {l : Line} {name : LoopName} {subject : Phrase} {body rest : Sheet}
      {ms ms₁ ms₂ ms₃ ms₄ : List Mark} : l.Marks ms → ForMarks name subject ms₁ → body.Marks ms₂ →
      ms₃.map Prod.fst = [.sign .closeBrace] → rest.Marks ms₄ →
      Marks (each l name subject body rest) (ms ++ (ms₁ ++ (ms₂ ++ (ms₃ ++ ms₄))))

theorem reads_elseText (z : List Char) : ∃ ms,
    ms.map Prod.fst = [.sign .closeBrace, .keyword .else, .sign .openBrace] ∧
      Reads ('\n' :: (elseText ++ z)) ms (' ' :: z) := by
  refine ⟨_, ?_, .cons rfl (Next.alone .closeBrace (by decide) _).space.newline
    (.cons rfl (.space (.wordBefore 'e' "lse".toList (by decide) (by decide)
      (by decide))) (.cons rfl (Next.alone .openBrace (by decide) _).space .nil))⟩
  rfl

theorem reads_endText (z : List Char) : ∃ ms, ms.map Prod.fst = [.sign .closeBrace] ∧
    Reads ('\n' :: (endText ++ z)) ms (' ' :: z) := by
  refine ⟨_, ?_, .cons rfl (Next.alone .closeBrace (by decide) _).space.newline .nil⟩
  rfl

/-- **The script of a sheet as tokens**, after a line end. -/
theorem Sheet.reads (sheet : Sheet) (x : List Char) :
    ∃ m ms, sheet.Marks (m :: ms) ∧ Reads ('\n' :: sheet.script x) (m :: ms) ('\n' :: x) := by
  induction sheet generalizing x with
  | line l =>
      obtain ⟨m, ms, hms, hr⟩ := l.reads x
      exact ⟨m, ms, .line hms, hr⟩
  | branch l test yes no rest yes_ih no_ih rest_ih =>
      obtain ⟨m₆, ms₆, h₆, hr₆⟩ := rest_ih x
      obtain ⟨ms₅, h₅, hr₅⟩ := reads_endText ('\n' :: rest.script x)
      obtain ⟨m₄, ms₄, h₄, hr₄⟩ := no_ih (endText ++ '\n' :: rest.script x)
      obtain ⟨ms₃, h₃, hr₃⟩ := reads_elseText ('\n' :: no.script (endText ++ '\n' :: rest.script x))
      obtain ⟨m₂, ms₂, h₂, hr₂⟩ := yes_ih (elseText ++ '\n' :: no.script (endText ++
        '\n' :: rest.script x))
      obtain ⟨ms₁, h₁, hr₁⟩ := reads_ifText test ('\n' :: yes.script (elseText ++
        '\n' :: no.script (endText ++ '\n' :: rest.script x)))
      obtain ⟨m, ms, h, hr⟩ := l.reads (ifText test ++ '\n' :: yes.script (elseText ++
        '\n' :: no.script (endText ++ '\n' :: rest.script x)))
      refine ⟨m, _, .branch h h₁ h₂ h₃ h₄ h₅ h₆, ?_⟩
      rw [script_branch]
      exact hr.append (hr₁.append (hr₂.space.append (hr₃.append (hr₄.space.append
        (hr₅.append hr₆.space)))))
  | each l name subject body rest body_ih rest_ih =>
      obtain ⟨m₄, ms₄, h₄, hr₄⟩ := rest_ih x
      obtain ⟨ms₃, h₃, hr₃⟩ := reads_endText ('\n' :: rest.script x)
      obtain ⟨m₂, ms₂, h₂, hr₂⟩ := body_ih (endText ++ '\n' :: rest.script x)
      obtain ⟨ms₁, h₁, hr₁⟩ := reads_forText name subject ('\n' :: body.script (endText ++
        '\n' :: rest.script x))
      obtain ⟨m, ms, h, hr⟩ := l.reads (forText name subject ++ '\n' :: body.script (endText ++
        '\n' :: rest.script x))
      refine ⟨m, _, .each h h₁ h₂ h₃ h₄, ?_⟩
      rw [script_each]
      exact hr.append (hr₁.append (hr₂.space.append (hr₃.append hr₄.space)))

end Stencil
