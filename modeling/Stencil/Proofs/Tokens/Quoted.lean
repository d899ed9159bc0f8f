import Stencil.Proofs.Tokens.Words
import Stencil.Template.Literal

/-!
# Tokens — text between quotes

Text that is written between single quotes as `Literal.escape` writes it is one token, and the token
is the text as it was: the literal stays on its line and ends at its own quote
(`Next.quoted`).
-/

namespace Stencil.Script
open Stencil.Text

/-- The characters that are written as a backslash and others. -/
def escapedChars : List Char := ['\\', '\'', '\r', '\n', '\t', '\u2028', '\u2029']

theorem escapeChar_of_not_mem {c : Char} (h : c ∉ escapedChars) : Literal.escapeChar c = [c] := by
  simp only [escapedChars, List.mem_cons, List.not_mem_nil, or_false, not_or] at h
  unfold Literal.escapeChar
  split <;> first | rfl | simp_all

/-- Each such character is read back from what stands for it after the backslash. -/
theorem readEscape_escapeChar {c : Char} (h : c ∈ escapedChars) (x : List Char) (p : Position) :
    ∃ l q, Literal.escapeChar c = '\\' :: l ∧ readEscape ⟨l ++ x, p⟩ = .ok ([c], ⟨x, q⟩) := by
  simp only [escapedChars, List.mem_cons, List.not_mem_nil, or_false] at h
  rcases h with rfl | rfl | rfl | rfl | rfl | rfl | rfl
  · exact ⟨['\\'], _, rfl, rfl⟩
  · exact ⟨['\''], _, rfl, rfl⟩
  · exact ⟨['r'], _, rfl, rfl⟩
  · exact ⟨['n'], _, rfl, rfl⟩
  · exact ⟨['t'], _, rfl, rfl⟩
  · exact ⟨"u2028".toList, _, rfl, rfl⟩
  · exact ⟨"u2029".toList, _, rfl, rfl⟩

/-- **Text between quotes** up to its closing quote. -/
theorem unquotes_escape (cs rest : List Char) (done : List Char) (p : Position) :
    ∃ q, Unquotes '\'' done ⟨Literal.escape cs ++ '\'' :: rest, p⟩ (String.ofList (done.reverse ++ cs))
      ⟨rest, q⟩ := by
  induction cs generalizing done p with
  | nil =>
      rw [List.append_nil]
      exact ⟨_, .quote⟩
  | cons c cs ih =>
      have happ : done.reverse ++ c :: cs = (c :: done).reverse ++ cs := by simp
      rw [Literal.escape, List.flatMap_cons, ← Literal.escape, List.append_assoc, happ]
      by_cases hc : c ∈ escapedChars
      · obtain ⟨l, q, hl, hread⟩ :=
          readEscape_escapeChar hc (Literal.escape cs ++ '\'' :: rest) (p.after '\\'
            ((Literal.escapeChar c).tail ++ (Literal.escape cs ++ '\'' :: rest)))
        rw [hl, List.tail_cons] at hread
        obtain ⟨q', unquotes⟩ := ih (c :: done) q
        rw [hl, List.cons_append]
        exact ⟨q', .escape (by decide) hread unquotes⟩
      · have hne : ∀ d ∈ escapedChars, c ≠ d := fun d hd h => hc (h ▸ hd)
        obtain ⟨q', unquotes⟩ := ih (c :: done) (p.after c (Literal.escape cs ++ '\'' :: rest))
        rw [escapeChar_of_not_mem hc]
        exact ⟨q', .plain (hne _ (by decide)) ⟨hne _ (by decide), hne _ (by decide),
          hne _ (by decide)⟩ unquotes⟩

section
variable {quote : Char} (hquote : quote = '\'' ∨ quote = '"')
include hquote

/-- Nothing stands between tokens where a quote does. -/
theorem skipGap_quote (cs : List Char) (newline : Bool) (p : Position) :
    skipGap .blanks newline p (quote :: cs) = .ok (newline, ⟨quote :: cs, p⟩) := by
  have hslash : quote ≠ '/' := by
    rcases hquote with rfl | rfl <;> decide
  refine skipGap_none ?_ ?_ (fun r => ⟨?_, ?_⟩) newline p
  · rcases hquote with rfl | rfl <;> decide
  · rcases hquote with rfl | rfl <;> decide
  · exact fun h => hslash (List.cons.inj h).1
  · exact fun h => hslash (List.cons.inj h).1

theorem readToken_quote (cs : List Char) (p : Position) :
    readToken ⟨quote :: cs, p⟩ = readString quote ⟨cs, p.after quote cs⟩ := by
  rcases hquote with rfl | rfl <;> rfl

end

/-- **Text between quotes is one token.** -/
theorem Next.quoted (cs rest : List Char) :
    Next ('\'' :: (Literal.escape cs ++ '\'' :: rest)) (.string (String.ofList cs), false) rest := by
  intro p
  obtain ⟨q, unquotes⟩ := unquotes_escape cs rest [] (p.after '\'' (Literal.escape cs ++ '\'' :: rest))
  refine ⟨_, p, q, skipGap_quote (.inl rfl) _ _ p, ?_⟩
  rw [readToken_quote (.inl rfl)]
  exact except_bind_of_ok (unquotes.readQuoted (Nat.lt_succ_self _)) _

end Stencil.Script
