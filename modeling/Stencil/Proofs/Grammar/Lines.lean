import Stencil.Proofs.Grammar.Local

/-!
# Grammar — the line before the first token

Where a line ends matters to the parser after an expression or a statement, and nowhere else.  So it does
not matter before the first token of an expression or of a statement (`LineBlind.levels`).
-/

namespace Stencil.Script
namespace Parser

/-- **Parsers that do not ask whether a line ends before their first token**, which is of the given
kind. -/
def LineBlind {α : Type} (kind : TokenKind) (p : Parser α) : Prop :=
  ∀ t u ts a rest, t.kind = kind → u.kind = kind → p.run (t :: ts) = .ok (a, rest) →
    p.run (u :: ts) = .ok (a, rest)

namespace LineBlind

variable {α β : Type} {kind : TokenKind} {level : Level} {n : Nat}

/-- Parsers that take a token are blind to the line before it, whatever follows. -/
theorem bind {p : Parser α} {f : α → Parser β} (hp : LineBlind kind p) : LineBlind kind (p >>= f) := by
  intro t u ts b rest ht hu e
  obtain ⟨a, mid, e₁, e₂⟩ := run_bind_ok e
  rw [run_bind_of_ok f (hp t u ts a mid ht hu e₁), e₂]

theorem peekKind {f : TokenKind → Parser β} (hf : LineBlind kind (f kind)) :
    LineBlind kind (Parser.peekKind >>= f) := by
  intro t u ts b rest ht hu e
  rw [run_bind_of_ok f (run_peekKind _ _), ht] at e
  rw [run_bind_of_ok f (run_peekKind _ _), hu]
  exact hf t u ts b rest ht hu e

theorem skip {f : Parser β} (hk : kind.isStop = false) :
    LineBlind kind (Parser.advance >>= fun _ => f) := by
  intro t u ts b rest ht hu e
  rw [run_bind_of_ok _ (run_advance (ht ▸ hk) ts)] at e
  rw [run_bind_of_ok _ (run_advance (hu ▸ hk) ts), e]

theorem failHere (cause : ParseError.Cause) : LineBlind kind (Parser.failHere cause : Parser α) := by
  intro t u ts b rest _ _ e
  cases e

theorem unexpected : LineBlind kind (Parser.unexpected : Parser α) := by
  intro t u ts b rest _ _ e
  cases e

theorem expectSign (sign : Punctuator) : LineBlind kind (Parser.expectSign sign) := by
  intro t u ts b rest ht hu e
  cases hs : kind.isSign sign with
  | true =>
      rw [run_expectSign_true (ht ▸ hs)] at e
      rw [run_expectSign_true (hu ▸ hs), e]
  | false =>
      rw [run_expectSign_false (ht ▸ hs)] at e
      cases e

/-! ### Productions -/

theorem primary : LineBlind kind (Parser.primary level n) := by
  rw [primary_eq]
  refine .peekKind ?_
  cases kind with
  | number value => exact .skip rfl
  | string value => exact .skip rfl
  | name word => exact .skip rfl
  | stop => exact .unexpected
  | keyword word => cases word <;> first | exact .skip rfl | exact .unexpected
  | sign s => cases s <;> first | exact .skip rfl | exact .unexpected

theorem unaryBody : LineBlind kind (Parser.unaryBody level n) := by
  refine .peekKind ?_
  cases hop : unaryOp kind with
  | some op =>
      exact .skip (TokenKind.isStop_of_some hop rfl)
  | none =>
      cases hi : kind.isSign .increment || kind.isSign .decrement with
      | false =>
          simp only [hi]
          exact primary.bind
      | true =>
          simp only [hi]
          refine .skip ?_
          cases kind with
          | stop => cases hi
          | _ => rfl

/-- **Levels that are blind to the line before their first token.** -/
structure Levelwise (level : Level) : Prop where
  statement : ∀ inLoop kind, LineBlind kind (level.statement inLoop)
  assignment : ∀ kind, LineBlind kind level.assignment
  unary : ∀ kind, LineBlind kind level.unary

namespace Levelwise

theorem infixed (h : Levelwise level) (count : Nat) :
    LineBlind kind (Parser.infixed level n count) := by
  induction count with
  | zero => exact h.unary kind
  | succ count ih => exact ih.bind

theorem otherStatement (h : Levelwise level) :
    LineBlind kind
      (match declKind kind with
        | some declared => do
          let _ ← advance
          let all ← Parser.bindings level declared n
          Parser.endStatement
          pure (Stmt.declare declared all)
        | none => do
          let e ← level.assignment
          Parser.endStatement
          pure (Stmt.expr e)) := by
  cases hd : declKind kind with
  | some declared =>
      exact .skip (TokenKind.isStop_of_some hd rfl)
  | none => exact (h.assignment kind).bind

theorem statementBody (h : Levelwise level) (inLoop : Bool) :
    LineBlind kind (Parser.statementBody level n inLoop) := by
  refine .peekKind ?_
  cases kind with
  | sign s =>
      cases s with
      | openBrace => exact (LineBlind.expectSign .openBrace).bind.bind
      | semicolon => exact .skip rfl
      | _ => exact @otherStatement _ _ n h
  | keyword word =>
      cases word with
      | «if» => exact .skip rfl
      | «for» => exact .skip rfl
      | «while» => exact .skip rfl
      | «break» => cases inLoop <;> first | exact .skip rfl | exact .failHere _
      | «continue» => cases inLoop <;> first | exact .skip rfl | exact .failHere _
      | «return» => exact .skip rfl
      | function => exact .skip rfl
      | _ => exact @otherStatement _ _ n h
  | _ => exact @otherStatement _ _ n h

end Levelwise

theorem levels (bound room : Nat) : Levelwise (Parser.levels bound room) := by
  induction room with
  | zero => exact ⟨fun _ _ => .failHere _, fun _ => .failHere _, fun _ => .failHere _⟩
  | succ room ih =>
      exact ⟨fun inLoop _ => ih.statementBody inLoop, fun _ => (ih.infixed 7).bind.bind,
        fun _ => .unaryBody⟩

end LineBlind

end Parser

end Stencil.Script
