import Stencil.Proofs.Tokens.Reads
import Mathlib.Data.List.Infix

/-!
# Tokens — the end of a text

After the last token of a text a gap is left, and what comes after the text begins inside that gap.
If the gap is an open comment, one that goes to the end of its line, it takes in what comes
(`OpenComment`).  Otherwise, and always where a line feed comes first, the tokens of the text are
followed by those of what comes after.

* `skipGap_over`, `skipGap_lineFeed`: the gap at the end of a text, with more text after it.
* `Over.next`, `Over.lineFeed`: the first token after a text.
-/

namespace Stencil.Script
open Stencil.Text

/-- **What a gap at the end of a text is.**  It is a comment that goes to the end of its line, or ends
in such a comment, or goes on into what comes after as if it began there. -/
theorem skipGap_over {gap : Gap} {newline after : Bool} {p : Position} {cs : List Char}
    {next : Cursor} (e : skipGap gap newline p cs = .ok (after, next)) (hnext : next.rest = []) :
    (gap = .lineComment ∧ ∀ c ∈ cs, isLineEnd c = false) ∨
    (∃ before comment, cs = before ++ '/' :: '/' :: comment ∧ (∀ c ∈ comment, isLineEnd c = false) ∧
      ∀ p', ∃ newline' q, skipGap gap newline p' before = .ok (newline', ⟨[], q⟩)) ∨
    ∀ x p', Apart x → ∃ q, skipGap gap newline p' (cs ++ x) = skipGap .blanks after q x := by
  induction gap, cs using gap_induction generalizing newline p with
  | unterminated => cases e
  | ended gap hgap =>
      rw [skipGap_nil hgap] at e
      cases e
      cases gap with
      | blanks => exact .inr (.inr fun x p' _ => ⟨p', rfl⟩)
      | lineComment => exact .inl ⟨rfl, fun _ h => absurd h List.not_mem_nil⟩
      | blockComment => exact absurd rfl hgap
  | token c rest hline hblank hcomment =>
      rw [skipGap_none hline hblank hcomment] at e
      cases e
      cases hnext
  | step gap front rest inner hstep ih =>
      rw [hstep.skipGap_eq] at e
      rcases ih e with ⟨rfl, hcomment⟩ | ⟨before, comment, rfl, hcomment, hbefore⟩ | h
      · -- the comment begins here, or goes on
        cases hstep with
        | line => exact .inr (.inl ⟨[], rest, rfl, hcomment, fun p' => ⟨_, p', rfl⟩⟩)
        | inComment hc => exact .inl ⟨rfl, List.forall_mem_cons.mpr ⟨hc, hcomment⟩⟩
      · refine .inr (.inl ⟨front ++ before, comment, (List.append_assoc _ _ _).symm, hcomment,
          fun p' => ?_⟩)
        rw [hstep.of_append.skipGap_eq]
        exact hbefore _
      · refine .inr (.inr fun x p' hx => ?_)
        rw [List.append_assoc, (hstep.append hx).skipGap_eq]
        exact h x _ hx

/-- A line feed ends the gap before it, a comment too. -/
theorem skipGap_lineFeed {gap : Gap} {newline after : Bool} {p : Position} {cs : List Char}
    {next : Cursor} (e : skipGap gap newline p cs = .ok (after, next)) (hnext : next.rest = [])
    (x : List Char) (p' : Position) :
    ∃ q, skipGap gap newline p' (cs ++ '\n' :: x) = skipGap .blanks true q x := by
  have hx : Apart ('\n' :: x) := .cons (by decide)
  induction gap, cs using gap_induction generalizing newline p p' with
  | unterminated => cases e
  | ended gap hgap =>
      cases gap with
      | blanks => exact skipGap_newline x _ _
      | lineComment =>
          rw [List.nil_append, skipGap, if_pos (by decide)]
          exact ⟨_, rfl⟩
      | blockComment => exact absurd rfl hgap
  | token c rest hline hblank hcomment =>
      rw [skipGap_none hline hblank hcomment] at e
      cases e
      cases hnext
  | step gap front rest inner hstep ih =>
      rw [hstep.skipGap_eq] at e
      rw [List.append_assoc, (hstep.append hx).skipGap_eq]
      exact ih e _

/-! ### Open comments -/

/-- **Texts that end inside a comment to the end of its line.**  After their tokens and a gap the
comment begins, and no line end follows in it. -/
def OpenComment (cs : List Char) : Prop :=
  ∃ marks gap comment newline, Reads cs marks (gap ++ '/' :: '/' :: comment) ∧ Over gap newline ∧
    ∀ c ∈ comment, isLineEnd c = false

theorem OpenComment.of_rest {cs rest : List Char} {ms : List Mark} (h : Reads cs ms rest)
    (ho : OpenComment rest) : OpenComment cs := by
  obtain ⟨marks, gap, comment, newline, hr, hgap, hcomment⟩ := ho
  exact ⟨ms ++ marks, gap, comment, newline, h.append hr, hgap, hcomment⟩

/-- Texts in which comments to the end of their line end. -/
def CommentsEnd (cs : List Char) : Prop :=
  ∀ rest, '/' :: '/' :: rest <:+ cs → '\n' ∈ rest

theorem commentsEnd_iff {cs : List Char} :
    CommentsEnd cs ↔ ∀ t ∈ cs.tails, t.take 2 = ['/', '/'] → '\n' ∈ t.drop 2 := by
  constructor
  · intro h t ht htake
    refine h _ ?_
    have hsplit : '/' :: '/' :: t.drop 2 = t := by
      rw [show '/' :: '/' :: t.drop 2 = ['/', '/'] ++ t.drop 2 from rfl, ← htake, List.take_append_drop]
    rw [hsplit]
    exact (List.mem_tails _ _).mp ht
  · intro h rest hs
    exact h _ ((List.mem_tails _ _).mpr hs) rfl

instance (cs : List Char) : Decidable (CommentsEnd cs) :=
  decidable_of_iff _ commentsEnd_iff.symm

theorem CommentsEnd.not_open {cs : List Char} (h : CommentsEnd cs) : ¬ OpenComment cs := by
  rintro ⟨marks, gap, comment, newline, hr, -, hcomment⟩
  have hsuffix : '/' :: '/' :: comment <:+ cs := (List.suffix_append gap _).trans hr.suffix
  cases hcomment '\n' (h comment hsuffix)

/-! ### After the end -/

/-- After the gap at the end of a text comes the first token of a text that stands apart. -/
theorem Over.next {cs x rest : List Char} {newline : Bool} {m : Mark} (h : Over cs newline)
    (hopen : ¬ OpenComment cs) (hx : Apart x) (hn : Next x m rest) :
    Next (cs ++ x) (m.1, newline || m.2) rest := by
  obtain ⟨q, e⟩ := h .start
  rcases skipGap_over e rfl with ⟨hgap, -⟩ | ⟨before, comment, rfl, hcomment, hbefore⟩ | hover
  · cases hgap
  · obtain ⟨newline', q', e'⟩ := hbefore .start
    exact absurd ⟨[], before, comment, newline', .nil, over_of_run e' rfl, hcomment⟩ hopen
  · intro p
    obtain ⟨q₁, hq₁⟩ := hover x p hx
    obtain ⟨mid, q₂, q₃, e₁, e₂⟩ := hn q₁
    refine ⟨mid, q₂, q₃, ?_, e₂⟩
    rw [hq₁]
    cases newline with
    | false => exact e₁
    | true => exact skipGap_true e₁

/-- After a line feed comes what would come without the text before it. -/
theorem Over.lineFeed {cs x rest : List Char} {newline : Bool} {m : Mark} (h : Over cs newline)
    (hn : Next x m rest) : Next (cs ++ '\n' :: x) (m.1, true) rest := by
  obtain ⟨q, e⟩ := h .start
  intro p
  obtain ⟨q', e'⟩ := h p
  obtain ⟨q₁, hq₁⟩ := skipGap_lineFeed e' rfl x p
  obtain ⟨mid, q₂, q₃, e₁, e₂⟩ := hn q₁
  exact ⟨mid, q₂, q₃, by rw [hq₁, skipGap_true e₁], e₂⟩

/-! ### Texts in sequence -/

section
variable {cs x rest r : List Char} {ms ms' : List Mark} {newline : Bool} {m : Mark}

/-- **A text before one that stands apart.** -/
theorem Reads.followed (h : Reads cs ms rest) (hover : Over rest newline) (hopen : ¬ OpenComment cs)
    (hx : Apart x) (hr : Reads x (m :: ms') r) :
    Reads (cs ++ x) (ms ++ (m.1, newline || m.2) :: ms') r := by
  cases hr with
  | cons hs hn hr =>
      exact (h.append_apart hx).append
        (.cons hs (hover.next (fun ho => hopen (.of_rest h ho)) hx hn) hr)

/-- **A text before a line feed.** -/
theorem Reads.lineFed (h : Reads cs ms rest) (hover : Over rest newline)
    (hr : Reads x (m :: ms') r) :
    Reads (cs ++ '\n' :: x) (ms ++ (m.1, true) :: ms') r := by
  cases hr with
  | cons hs hn hr =>
      exact (h.append_apart (.cons (by decide))).append (.cons hs (hover.lineFeed hn) hr)

end

end Stencil.Script
