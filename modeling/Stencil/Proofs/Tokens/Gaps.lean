import Stencil.Script.Token.Scan

/-!
# Tokens — the gaps between them

Blanks and comments are passed over step by step.  `GapStep gap front rest after` is one step: within
`gap` it takes `front` of a text, `rest` comes next, and what comes next is within `after`.  A step does not
depend on where its text begins, and sees one character more than it takes at most.

`GapStep.skipGap_eq` says what a step does, `gap_induction` is the induction on steps, and the ends of a gap have
an equation each.  What holds of whole gaps follows from these.
-/

namespace Stencil.Text

/-- The position after a text that `rest` follows. -/
def Position.through (p : Position) : List Char → List Char → Position
  | [], _ => p
  | c :: before, rest => (p.after c (before ++ rest)).through before rest

end Stencil.Text

namespace Stencil.Script
open Stencil.Text

/-- **One step of passing over a gap.** -/
inductive GapStep : Gap → List Char → List Char → Gap → Prop where
  | line (rest : List Char) : GapStep .blanks ['/', '/'] rest .lineComment
  | block (rest : List Char) : GapStep .blanks ['/', '*'] rest .blockComment
  | lineEnd {c : Char} (hc : isLineEnd c = true) (rest : List Char) : GapStep .blanks [c] rest .blanks
  | blank {c : Char} (hc : isLineEnd c = false) (hb : (isBlank c || c == '\ufeff') = true)
      (rest : List Char) : GapStep .blanks [c] rest .blanks
  | endOfComment {c : Char} (hc : isLineEnd c = true) (rest : List Char) :
      GapStep .lineComment [c] rest .blanks
  | inComment {c : Char} (hc : isLineEnd c = false) (rest : List Char) :
      GapStep .lineComment [c] rest .lineComment
  | endOfBlock (rest : List Char) : GapStep .blockComment ['*', '/'] rest .blanks
  | inBlock {c : Char} {rest : List Char} (hc : ∀ r, c = '*' → rest ≠ '/' :: r) :
      GapStep .blockComment [c] rest .blockComment

/-- **The induction on the steps of a gap.** -/
theorem gap_induction {motive : Gap → List Char → Prop} (unterminated : motive .blockComment [])
    (ended : ∀ gap, gap ≠ .blockComment → motive gap [])
    (token : ∀ c rest, isLineEnd c = false → (isBlank c || c == '\ufeff') = false →
      (∀ r, c :: rest ≠ '/' :: '/' :: r ∧ c :: rest ≠ '/' :: '*' :: r) → motive .blanks (c :: rest))
    (step : ∀ gap front rest after, GapStep gap front rest after → motive after rest →
      motive gap (front ++ rest)) (gap : Gap) (cs : List Char) : motive gap cs := by
  have all : ∀ (newline : Bool) (p : Position), motive gap cs := by
    intro newline p
    induction gap, newline, p, cs using skipGap.induct with
    | case1 => exact unterminated
    | case2 gap _ _ hgap => exact ended gap hgap
    | case3 _ _ rest ih => exact step _ _ _ _ (.line rest) ih
    | case4 _ _ rest ih => exact step _ _ _ _ (.block rest) ih
    | case5 _ _ c rest _ _ hc ih => exact step _ _ _ _ (.lineEnd hc rest) ih
    | case6 _ _ c rest _ _ hc hb ih => exact step _ _ _ _ (.blank (Bool.eq_false_iff.mpr hc) hb rest) ih
    | case7 _ _ c rest hline hblock hc hb =>
        refine token c rest (Bool.eq_false_iff.mpr hc) (Bool.eq_false_iff.mpr hb) fun r => ⟨?_, ?_⟩
        · exact fun h => hline r (List.cons.inj h).1 (List.cons.inj h).2
        · exact fun h => hblock r (List.cons.inj h).1 (List.cons.inj h).2
    | case8 _ _ c rest hc ih => exact step _ _ _ _ (.endOfComment hc rest) ih
    | case9 _ _ c rest hc ih => exact step _ _ _ _ (.inComment (Bool.eq_false_iff.mpr hc) rest) ih
    | case10 _ _ rest ih => exact step _ _ _ _ (.endOfBlock rest) ih
    | case11 _ _ c rest hstar ih => exact step _ _ _ _ (.inBlock hstar) ih
  exact all false .start

/-! ### The ends of a gap -/

theorem skipGap_nil {gap : Gap} (h : gap ≠ .blockComment) (newline : Bool) (p : Position) :
    skipGap gap newline p [] = .ok (newline, ⟨[], p⟩) :=
  skipGap.eq_2 _ _ _ h

theorem skipGap_none {c : Char} {rest : List Char} (hline : isLineEnd c = false)
    (hblank : (isBlank c || c == '\ufeff') = false)
    (hcomment : ∀ r, c :: rest ≠ '/' :: '/' :: r ∧ c :: rest ≠ '/' :: '*' :: r) (newline : Bool)
    (p : Position) : skipGap .blanks newline p (c :: rest) = .ok (newline, ⟨c :: rest, p⟩) := by
  rw [skipGap.eq_5 _ _ _ _ (fun r h₁ h₂ => (hcomment r).1 (by rw [h₁, h₂]))
    fun r h₁ h₂ => (hcomment r).2 (by rw [h₁, h₂]), hline, hblank]
  rfl

/-! ### Steps -/

/-- **What a step does**: a line has ended if one ends in what it takes. -/
theorem GapStep.skipGap_eq {gap after : Gap} {front rest : List Char} (h : GapStep gap front rest after)
    (newline : Bool) (p : Position) :
    skipGap gap newline p (front ++ rest) =
      skipGap after (newline || front.any isLineEnd) (p.through front rest) rest := by
  have single : ∀ c : Char, [c].any isLineEnd = isLineEnd c := fun c => by
    rw [List.any_cons, List.any_nil, Bool.or_false]
  cases h with
  | line => exact (Bool.or_false newline).symm ▸ rfl
  | block => exact (Bool.or_false newline).symm ▸ rfl
  | @lineEnd c hc =>
      have hslash : c ≠ '/' := fun h => by rw [h] at hc; cases hc
      rw [single, hc, Bool.or_true, List.singleton_append,
        skipGap.eq_5 _ _ _ _ (fun _ h => absurd h hslash) fun _ h => absurd h hslash, if_pos hc]
      rfl
  | @blank c hc hb =>
      have hslash : c ≠ '/' := fun h => by rw [h] at hb; cases hb
      rw [single, hc, Bool.or_false, List.singleton_append,
        skipGap.eq_5 _ _ _ _ (fun _ h => absurd h hslash) fun _ h => absurd h hslash, hc, hb]
      rfl
  | endOfComment hc =>
      rw [single, hc, Bool.or_true, List.singleton_append, skipGap, if_pos hc]
      rfl
  | inComment hc =>
      rw [single, hc, Bool.or_false, List.singleton_append, skipGap, hc]
      rfl
  | endOfBlock => exact (Bool.or_false newline).symm ▸ rfl
  | inBlock hc =>
      rw [single, List.singleton_append, skipGap.eq_8 _ _ _ _ hc]
      rfl

/-- A step needs nothing of the text after what it sees. -/
theorem GapStep.of_append {gap after : Gap} {front rest x : List Char}
    (h : GapStep gap front (rest ++ x) after) : GapStep gap front rest after := by
  cases h with
  | line => exact .line rest
  | block => exact .block rest
  | lineEnd hc => exact .lineEnd hc rest
  | blank hc hb => exact .blank hc hb rest
  | endOfComment hc => exact .endOfComment hc rest
  | inComment hc => exact .inComment hc rest
  | endOfBlock => exact .endOfBlock rest
  | inBlock hc => exact .inBlock fun r h₁ h₂ => hc (r ++ x) h₁ (by rw [h₂]; rfl)

end Stencil.Script
