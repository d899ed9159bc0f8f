import Stencil.Proofs.Tokens.Placed
import Mathlib.Data.List.DropRight

/-!
# Tokens — the lines and columns of a text

A position is carried along while a text is read, over one character at a time and with a look at the one
after a carriage return.  What it should be can be counted: so many lines end before a place
(`lineBreaks`), and so many characters stand between the last line end and the place (`lastLine`).
`Position.counted` is the position that counting gives.

* `Position.through_counted`: what is carried along is what is counted, but between the two characters of a
  CR LF, where it is still the position of the first (`Position.exists_counted`).
* `Lexeme`: a token with the gap before it and its own text.
* `exists_lexemes`: the tokens of a text with their gaps are the text, each token has the position that is
  counted up to its own text, and a line ends before it if one ends in its gap.
* `Lexemes.increasing`: each token has a position after those of all tokens before it.
-/

namespace Stencil.Text

/-! ### Counting -/

/-- The number of lines that end in a text.  CR LF ends one line. -/
def lineBreaks : List Char → Nat
  | [] => 0
  | '\r' :: '\n' :: rest => lineBreaks rest + 1
  | c :: rest => if isLineEnd c then lineBreaks rest + 1 else lineBreaks rest

/-- What stands in a text after its last line end. -/
def lastLine (cs : List Char) : List Char :=
  cs.rtakeWhile fun c => !isLineEnd c

/-- The position of the place after a text, counted from its beginning. -/
def Position.counted (before : List Char) : Position :=
  ⟨1 + lineBreaks before, 1 + (lastLine before).length⟩

/-- A text in which no line ends. -/
def Unbroken (cs : List Char) : Prop :=
  ∀ c ∈ cs, isLineEnd c = false

theorem lastLine_unbroken {cs : List Char} (h : Unbroken cs) : lastLine cs = cs :=
  List.rtakeWhile_eq_self_iff.mpr fun c hc => by rw [h c hc]; rfl

/-- Nothing before a line end is in the last line. -/
theorem lastLine_append_lineEnd {c : Char} (hc : isLineEnd c = true) (before cs : List Char) :
    lastLine (before ++ c :: cs) = lastLine cs := by
  have hstop : (c :: before.reverse).takeWhile (fun c => !isLineEnd c) = [] :=
    List.takeWhile_cons_of_neg (by simp [hc])
  have hreverse : (before ++ c :: cs).reverse = cs.reverse ++ c :: before.reverse := by simp
  rw [lastLine, lastLine, List.rtakeWhile, List.rtakeWhile, hreverse, List.takeWhile_append, hstop,
    List.append_nil]
  split
  · rename_i hall
    rw [(List.takeWhile_prefix _).eq_of_length hall]
  · rfl

/-! ### Carrying along -/

namespace Position

/-- Whether a place is between the two characters of a CR LF. -/
def Splits (before rest : List Char) : Prop :=
  before.getLast? = some '\r' ∧ rest.head? = some '\n'

theorem Splits.cons {before rest : List Char} (h : Splits before rest) (c : Char) :
    Splits (c :: before) rest := by
  refine ⟨?_, h.2⟩
  rw [List.getLast?_cons, h.1]
  rfl

theorem after_lineEnd {c : Char} (hc : isLineEnd c = true) {rest : List Char}
    (h : ¬ (c = '\r' ∧ rest.head? = some '\n')) (p : Position) : p.after c rest = ⟨p.line + 1, 1⟩ := by
  rw [after, if_pos hc, if_neg]
  simpa using h

/-- **Where a position gets to** from some way along a line. -/
theorem through_line {line before rest : List Char} (hline : Unbroken line)
    (h : ¬ Splits before rest) (n : Nat) :
    (⟨n, 1 + line.length⟩ : Position).through before rest =
      ⟨n + lineBreaks before, 1 + (lastLine (line ++ before)).length⟩ := by
  have begins : Unbroken [] := fun _ h => absurd h List.not_mem_nil
  induction before using lineBreaks.induct generalizing line n with
  | case1 =>
      rw [List.append_nil, lastLine_unbroken hline]
      rfl
  | case2 tail ih =>
      -- the CR of a CR LF leaves the position, and the LF after it begins a line
      have htail : ¬ Splits tail rest := fun hs => h ((hs.cons '\n').cons '\r')
      have hnext : (⟨n + 1, 1⟩ : Position).through tail rest =
          ⟨n + 1 + lineBreaks tail, 1 + (lastLine tail).length⟩ := ih begins htail (n + 1)
      have hcr : (⟨n, 1 + line.length⟩ : Position).after '\r' ('\n' :: tail ++ rest) =
          ⟨n, 1 + line.length⟩ := by
        rw [after, if_pos (by decide), if_pos (by simp)]
      have hlf : (⟨n, 1 + line.length⟩ : Position).after '\n' (tail ++ rest) = ⟨n + 1, 1⟩ :=
        after_lineEnd (by decide) (fun h => by cases h.1) _
      have hlast : lastLine (line ++ '\r' :: '\n' :: tail) = lastLine tail := by
        rw [lastLine_append_lineEnd (by decide)]
        exact lastLine_append_lineEnd (by decide) [] tail
      rw [through, hcr, through, hlf, hnext, lineBreaks, hlast, Nat.add_assoc, Nat.add_comm 1]
  | case3 c tail hpair hc ih =>
      have htail : ¬ Splits tail rest := fun hs => h (hs.cons c)
      have hnext : (⟨n + 1, 1⟩ : Position).through tail rest =
          ⟨n + 1 + lineBreaks tail, 1 + (lastLine tail).length⟩ := ih begins htail (n + 1)
      have hapart : ¬ (c = '\r' ∧ (tail ++ rest).head? = some '\n') := by
        rintro ⟨rfl, hhead⟩
        cases tail with
        | nil => exact h ⟨rfl, hhead⟩
        | cons d tail =>
            obtain rfl := Option.some.inj hhead
            exact hpair tail rfl rfl
      rw [through, after_lineEnd hc hapart, hnext, lineBreaks.eq_3 _ _ hpair, if_pos hc,
        lastLine_append_lineEnd hc, Nat.add_assoc, Nat.add_comm 1]
  | case4 c tail hpair hc ih =>
      have hmore : Unbroken (line ++ [c]) := List.forall_mem_append.mpr
        ⟨hline, fun d hd => by rw [List.mem_singleton.mp hd]; exact Bool.eq_false_iff.mpr hc⟩
      have htail : ¬ Splits tail rest := fun hs => h (hs.cons c)
      have hafter : (⟨n, 1 + line.length⟩ : Position).after c (tail ++ rest) =
          ⟨n, 1 + (line ++ [c]).length⟩ := by
        rw [after, if_neg hc, List.length_append]
        rfl
      rw [through, hafter, ih hmore htail, lineBreaks.eq_3 _ _ hpair, if_neg hc, List.append_assoc,
        List.singleton_append]

/-- **What is carried along is what is counted**, except between the two characters of a CR LF. -/
theorem through_counted {before rest : List Char} (h : ¬ Splits before rest) :
    start.through before rest = counted before := by
  have begins : Unbroken [] := fun _ h => absurd h List.not_mem_nil
  exact through_line begins h 1

/-- The position of each place is counted for some place of the text. -/
theorem exists_counted (before rest : List Char) : ∃ front back, before ++ rest = front ++ back ∧
    start.through before rest = counted front := by
  by_cases h : Splits before rest
  · -- the position of the carriage return is also that of the line feed after it
    obtain ⟨front, rfl⟩ : ∃ front, before = front ++ ['\r'] := by
      obtain ⟨hne, hlast⟩ := List.getLast?_eq_some_iff.mp h.1
      exact ⟨_, hlast⟩
    have hfront : ¬ Splits front ('\r' :: rest) := fun hs => by cases hs.2
    refine ⟨front, '\r' :: rest, by simp, ?_⟩
    rw [through_append, through, through, List.singleton_append, through_counted hfront, after,
      if_pos (by decide), if_pos (by simp [h.2])]
  · exact ⟨before, rest, rfl, through_counted h⟩

/-! ### The order of positions -/

/-- Whether a position is before another: on a line above, or on the same line and in a column to the
left. -/
def Before (p q : Position) : Prop :=
  p.line < q.line ∨ p.line = q.line ∧ p.column < q.column

theorem Before.trans {p q r : Position} (h : p.Before q) (h' : q.Before r) : p.Before r := by
  unfold Before at *
  omega

theorem after_eq_or_before (p : Position) (c : Char) (rest : List Char) :
    p.after c rest = p ∨ p.Before (p.after c rest) := by
  rw [after]
  split
  · split
    · exact .inl rfl
    · exact .inr (.inl (Nat.lt_succ_self _))
  · exact .inr (.inr ⟨rfl, Nat.lt_succ_self _⟩)

theorem through_eq_or_before (p : Position) (before rest : List Char) :
    p.through before rest = p ∨ p.Before (p.through before rest) := by
  induction before generalizing p with
  | nil => exact .inl rfl
  | cons c before ih =>
      rw [through]
      rcases p.after_eq_or_before c (before ++ rest) with h | h
      · rw [h]
        exact ih p
      · rcases ih (p.after c (before ++ rest)) with h' | h'
        · rw [h']
          exact .inr h
        · exact .inr (h.trans h')

/-- A text that begins with no line end takes a position on. -/
theorem before_through (p : Position) {c : Char} (hc : isLineEnd c = false) (before rest : List Char) :
    p.Before (p.through (c :: before) rest) := by
  have hstep : p.Before (p.after c (before ++ rest)) := by
    rw [after, if_neg (Bool.eq_false_iff.mp hc)]
    exact .inr ⟨rfl, Nat.lt_succ_self _⟩
  rw [through]
  rcases through_eq_or_before (p.after c (before ++ rest)) before rest with h | h
  · rw [h]
    exact hstep
  · exact hstep.trans h

/-- Places after each other with a character between them that ends no line. -/
theorem counted_before {c : Char} (hc : isLineEnd c = false) (before more : List Char) :
    (counted before).Before (counted (before ++ c :: more)) := by
  have hplace : ¬ Splits before (c :: more) := fun hs => by
    cases hs.2
    cases hc
  have hend : ¬ Splits (before ++ c :: more) [] := fun hs => by cases hs.2
  rw [← through_counted hplace, ← through_counted hend, through_append, List.append_nil]
  exact before_through _ hc more []

end Position

end Stencil.Text

namespace Stencil.Script
open Stencil.Text

/-! ### Gaps -/

/-- **What a gap takes.**  A line has ended if one ends in what is taken, and no line ends right after
it. -/
theorem skipGap_takes {gap : Gap} {newline after : Bool} {p : Position} {cs : List Char} {next : Cursor}
    (e : skipGap gap newline p cs = .ok (after, next)) :
    (∃ front, cs = front ++ next.rest ∧ after = (newline || front.any isLineEnd)) ∧
      ∀ c ∈ next.rest.head?, isLineEnd c = false := by
  induction gap, cs using gap_induction generalizing newline p with
  | unterminated => cases e
  | ended gap hgap =>
      rw [skipGap_nil hgap] at e
      cases e
      exact ⟨⟨[], rfl, (Bool.or_false _).symm⟩, fun c hc => by cases hc⟩
  | token c rest hline hblank hcomment =>
      rw [skipGap_none hline hblank hcomment] at e
      cases e
      refine ⟨⟨[], rfl, (Bool.or_false _).symm⟩, fun d hd => ?_⟩
      cases hd
      exact hline
  | step gap front rest inner hstep ih =>
      rw [hstep.skipGap_eq] at e
      obtain ⟨⟨taken, rfl, rfl⟩, hhead⟩ := ih e
      refine ⟨⟨front ++ taken, (List.append_assoc _ _ _).symm, ?_⟩, hhead⟩
      rw [List.any_append, Bool.or_assoc]

/-! ### Tokens with their gaps -/

/-- A token, the gap before it, and its own text. -/
structure Lexeme where
  gap : List Char
  own : List Char
  token : Token

/-- All the text of a lexeme. -/
def Lexeme.text (lexeme : Lexeme) : List Char :=
  lexeme.gap ++ lexeme.own

/-- **A lexeme in its place**, between what comes before it and what comes after it. -/
structure Lexeme.Stands (lexeme : Lexeme) (before after : List Char) : Prop where
  /-- The gap is what is passed over before the token. -/
  skipped : ∃ p q, skipGap .blanks false p (lexeme.text ++ after) =
    .ok (lexeme.token.newlineBefore, ⟨lexeme.own ++ after, q⟩)
  /-- Its own text is what the token is read from. -/
  reads : ∃ q, readToken ⟨lexeme.own ++ after, lexeme.token.position⟩ =
    .ok (lexeme.token.kind, ⟨after, q⟩)
  /-- Only the end has no text of its own. -/
  empty : lexeme.own = [] ↔ lexeme.token.kind = .stop
  /-- Nothing comes after the end. -/
  ends : lexeme.token.kind = .stop → after = []
  /-- A token does not begin with a line end. -/
  begins : ∀ c ∈ lexeme.own.head?, isLineEnd c = false
  position : lexeme.token.position = .counted (before ++ lexeme.gap)
  newline : lexeme.token.newlineBefore = true ↔ ∃ c ∈ lexeme.gap, isLineEnd c = true

/-- Lexemes that are a text after another, in order and each in its place.  The last one is the end. -/
inductive Lexemes : List Char → List Char → List Lexeme → Prop
  | last {lexeme : Lexeme} {before : List Char} (hlexeme : lexeme.Stands before [])
      (hstop : lexeme.token.kind = .stop) : Lexemes before lexeme.text [lexeme]
  | cons {lexeme : Lexeme} {lexemes : List Lexeme} {before after : List Char}
      (hlexeme : lexeme.Stands before after) (hstop : lexeme.token.kind ≠ .stop)
      (hlexemes : Lexemes (before ++ lexeme.text) after lexemes) :
      Lexemes before (lexeme.text ++ after) (lexeme :: lexemes)

/-- Only the end of a text is read from nothing. -/
theorem nil_iff_stop_of_readToken {own rest : List Char} {p : Position} {kind : TokenKind} {next : Cursor}
    (e : readToken ⟨own ++ rest, p⟩ = .ok (kind, next)) (hnext : next.rest = rest) :
    (own = [] ↔ kind = .stop) ∧ (kind = .stop → rest = []) := by
  rcases readToken_steady e with ⟨rfl, hnil⟩ | ⟨hkind, -, -, hlength, -⟩
  · obtain ⟨rfl, rfl⟩ := List.append_eq_nil_iff.mp hnil
    exact ⟨⟨fun _ => rfl, fun _ => rfl⟩, fun _ => rfl⟩
  · have hown : own ≠ [] := by
      rintro rfl
      rw [hnext] at hlength
      exact absurd hlength (Nat.lt_irrefl _)
    have hstop : kind ≠ .stop := by
      rintro rfl
      cases hkind
    exact ⟨⟨fun h => absurd h hown, fun h => absurd h hstop⟩, fun h => absurd h hstop⟩

/-- One round of reading gives a lexeme in its place. -/
theorem stands_of_run {before cs : List Char} {newline : Bool} {kind : TokenKind} {mid next : Cursor}
    (e₁ : skipGap .blanks false (Position.start.through before cs) cs = .ok (newline, mid))
    (e₂ : readToken mid = .ok (kind, next)) :
    ∃ lexeme : Lexeme, lexeme.token = ⟨kind, mid.position, newline⟩ ∧ cs = lexeme.text ++ next.rest ∧
      next.position = Position.start.through (before ++ lexeme.text) next.rest ∧
      lexeme.Stands before next.rest := by
  obtain ⟨text, q⟩ := mid
  obtain ⟨gap, hgap, hq⟩ := (skipGap_located .blanks false cs).ends e₁
  obtain ⟨⟨front, hfront, hnewline⟩, hhead⟩ := skipGap_takes e₁
  obtain ⟨own, hown, hposition⟩ := (readToken_located text).ends e₂
  obtain ⟨rest, q'⟩ := next
  obtain rfl : gap = front := List.append_cancel_right (hgap.symm.trans hfront)
  dsimp only at *
  subst hown hgap
  rw [← Position.through_append] at hq
  -- a gap takes both characters of a CR LF, so no token begins between them
  have hplace : ¬ Position.Splits (before ++ gap) (own ++ rest) := fun hs => by
    have hline := hhead '\n' (by rw [hs.2]; rfl)
    cases hline
  have hkind := nil_iff_stop_of_readToken e₂ rfl
  let lexeme : Lexeme := ⟨gap, own, ⟨kind, q, newline⟩⟩
  refine ⟨lexeme, rfl, (List.append_assoc _ _ _).symm, ?_, ?_⟩
  · rw [hposition, hq, Lexeme.text, ← Position.through_append, List.append_assoc]
  · exact
      { skipped := ⟨_, q, by rw [Lexeme.text, List.append_assoc]; exact e₁⟩
        reads := ⟨q', e₂⟩
        empty := hkind.1
        ends := hkind.2
        begins := fun c hc => hhead c (by rw [List.head?_append, show own.head? = some c from hc]; rfl)
        position := hq.trans (Position.through_counted hplace)
        newline := by
          show newline = true ↔ _
          rw [hnewline, Bool.false_or, List.any_eq_true] }

theorem Rounds.exists_lexemes {done ts : List Token} {cursor : Cursor} (h : Rounds done cursor ts) :
    ∀ before, cursor.position = Position.start.through before cursor.rest →
      ∃ lexemes, ts = done.reverse ++ lexemes.map Lexeme.token ∧
        Lexemes before cursor.rest lexemes := by
  induction h with
  | stop gap token _ =>
      intro before hplace
      rw [hplace] at gap
      obtain ⟨lexeme, htoken, hcs, -, hlexeme⟩ := stands_of_run gap token
      have hstop : lexeme.token.kind = .stop := by rw [htoken]
      rw [hlexeme.ends hstop] at hcs hlexeme
      rw [hcs, List.append_nil, ← htoken]
      exact ⟨[lexeme], List.reverse_cons, .last hlexeme hstop⟩
  | next gap token hk _ _ ih =>
      intro before hplace
      rw [hplace] at gap
      obtain ⟨lexeme, htoken, hcs, hposition, hlexeme⟩ := stands_of_run gap token
      obtain ⟨lexemes, rfl, hlexemes⟩ := ih _ hposition
      have hstop : lexeme.token.kind ≠ .stop := by
        rw [htoken]
        rintro rfl
        cases hk
      rw [hcs, ← htoken]
      exact ⟨lexeme :: lexemes, by simp, .cons hlexeme hstop hlexemes⟩

/-- **The tokens of a text with their gaps are the text**, each in its place. -/
theorem exists_lexemes {source : String} {ts : List Token} (h : tokens source = .ok ts) :
    ∃ lexemes : List Lexeme, lexemes.map Lexeme.token = ts ∧ Lexemes [] source.toList lexemes := by
  obtain ⟨lexemes, hts, hlexemes⟩ :=
    (rounds_of_readTokens h (Nat.lt_succ_self _)).exists_lexemes [] rfl
  exact ⟨lexemes, hts.symm, hlexemes⟩

/-! ### The order of tokens -/

/-- Each lexeme stands somewhere in the text. -/
theorem Lexemes.stands {lexemes : List Lexeme} {before cs : List Char}
    (h : Lexemes before cs lexemes) :
    ∀ lexeme ∈ lexemes, ∃ between after, cs = between ++ (lexeme.text ++ after) ∧
      lexeme.Stands (before ++ between) after := by
  induction h with
  | last hlexeme hstop =>
      intro lexeme hmem
      obtain rfl := List.mem_singleton.mp hmem
      exact ⟨[], [], (List.append_nil _).symm, by rwa [List.append_nil]⟩
  | @cons lexeme lexemes before after hlexeme hstop hlexemes ih =>
      have first : lexeme.Stands (before ++ []) after := by rwa [List.append_nil]
      refine List.forall_mem_cons.mpr ⟨⟨[], after, rfl, first⟩, fun later hlater => ?_⟩
      obtain ⟨between, rest, rfl, hstands⟩ := ih later hlater
      exact ⟨lexeme.text ++ between, rest, (List.append_assoc _ _ _).symm, by rwa [← List.append_assoc]⟩

/-- A token that is not the end is before what comes after it. -/
theorem Lexeme.Stands.position_before {lexeme later : Lexeme} {before between after rest : List Char}
    (h : lexeme.Stands before after) (hstop : lexeme.token.kind ≠ .stop)
    (h' : later.Stands (before ++ lexeme.text ++ between) rest) :
    lexeme.token.position.Before later.token.position := by
  obtain ⟨c, own, hown⟩ := List.exists_cons_of_ne_nil (mt h.empty.mp hstop)
  have hc : isLineEnd c = false := h.begins c (by rw [hown]; rfl)
  have hlater : before ++ lexeme.text ++ between ++ later.gap =
      before ++ lexeme.gap ++ c :: (own ++ between ++ later.gap) := by
    simp [Lexeme.text, hown]
  rw [h.position, h'.position, hlater]
  exact Position.counted_before hc _ _

/-- **The positions of the tokens of a text increase.** -/
theorem Lexemes.increasing {lexemes : List Lexeme} {before cs : List Char} (h : Lexemes before cs lexemes) :
    lexemes.Pairwise fun lexeme later => lexeme.token.position.Before later.token.position := by
  induction h with
  | last hlexeme hstop => exact List.pairwise_singleton _ _
  | cons hlexeme hstop hlexemes ih =>
      refine List.pairwise_cons.mpr ⟨fun later hlater => ?_, ih⟩
      obtain ⟨between, rest, -, hstands⟩ := hlexemes.stands later hlater
      exact hlexeme.position_before hstop hstands

end Stencil.Script
