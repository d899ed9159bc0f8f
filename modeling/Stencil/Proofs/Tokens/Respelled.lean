import Stencil.Proofs.Tokens.Spelled

/-!
# Tokens — tokens written out again

What a text reads as can be written out again: names are names, and numbers are
rounded from digits, so that they have no sign and are defined (`Reads.legible`).  Only an infinite
number, which too many digits make, has no numeral.

**Tokens written out** (`tokens_respelled`).  Tokens that are written out with one space between them
read as the same tokens, and so do the tokens of any text if no number in it is infinite.
-/

namespace Stencil.Script
open Text

/-- A token that a text can have: it can be written, or it is an infinite number. -/
def TokenKind.Legible (kind : TokenKind) : Prop :=
  kind.Writable ∨ kind = .number Number.infinity

theorem legible_of_rounded {value : Float} (h : Number.Rounded value) :
    (TokenKind.number value).Legible := by
  rcases h with ⟨hfinite, hsign⟩ | rfl
  · left
    show isLiteral value = true
    rw [isLiteral, hfinite, hsign]
    rfl
  · exact .inr rfl

/-- A literal that is not infinite can be written. -/
theorem TokenKind.Legible.writable {kind : TokenKind} (h : kind.Legible)
    (hfinite : ∀ value, kind = .number value → value.isInf = false) : kind.Writable := by
  rcases h with h | rfl
  · exact h
  · exact absurd (hfinite _ rfl) (by decide +kernel)

/-! ### What is read -/

theorem readToken_legible {cursor next : Cursor} {kind : TokenKind}
    (e : readToken cursor = .ok (kind, next)) (hstop : kind.isStop = false) : kind.Legible := by
  obtain ⟨cs, p⟩ := cursor
  have hsound : kind.Sound := by
    rcases readToken_steady e with ⟨rfl, -⟩ | ⟨-, hsound, -⟩
    · cases hstop
    · exact hsound
  cases kind with
  | name word => exact .inl hsound
  | keyword word => exact .inl trivial
  | string value => exact .inl trivial
  | sign mark => exact .inl trivial
  | stop => cases hstop
  | number value =>
      obtain ⟨front, _, -, hkind, hfront⟩ := readNumber_front (readNumber_of_readToken e)
      cases hkind
      exact legible_of_rounded hfront.rounded

/-- **What is read can be written again**, but for infinite numbers. -/
theorem Reads.legible {cs rest : List Char} {ms : List Mark} (h : Reads cs ms rest) :
    ∀ m ∈ ms, m.1.Legible := by
  induction h with
  | nil => nofun
  | cons hs hn _ ih =>
      intro m hm
      rcases List.mem_cons.mp hm with rfl | hm
      · obtain ⟨mid, q, q', -, e⟩ := hn .start
        exact readToken_legible e hs
      · exact ih m hm

/-! ### All tokens -/

/-- Tokens that can be written read as themselves. -/
theorem kinds_spelled {kinds : List TokenKind} (h : ∀ kind ∈ kinds, kind.Writable) :
    ∃ ts, tokens (String.ofList (spelled kinds)) = .ok ts ∧
      ts.map Token.kind = kinds ++ [.stop] := by
  have hreads := reads_spelled h
  rw [← @String.toList_ofList (spelled kinds)] at hreads
  obtain ⟨ts, hts, hmarks⟩ := tokens_of_reads hreads over_nil
  refine ⟨ts, hts, ?_⟩
  have hkinds := congrArg (List.map Prod.fst) hmarks
  simpa [Function.comp_def, Token.mark] using hkinds

/-- The kinds of the tokens of a text. -/
theorem kinds_of_tokens {source : String} {ts : List Token} (h : tokens source = .ok ts) :
    ∃ kinds : List TokenKind, ts.map Token.kind = kinds ++ [.stop] ∧
      ∀ kind ∈ kinds, kind.isStop = false ∧ kind.Legible := by
  obtain ⟨ms, rest, newline, hreads, -, hmarks⟩ := reads_of_tokens h
  refine ⟨ms.map Prod.fst, ?_, ?_⟩
  · have hkinds := congrArg (List.map Prod.fst) hmarks
    simpa [Function.comp_def, Token.mark] using hkinds
  · intro kind hkind
    obtain ⟨m, hm, rfl⟩ := List.mem_map.mp hkind
    exact ⟨(hreads.sound m hm).1, hreads.legible m hm⟩

/-- **Tokens written out.**  Tokens that can be written read as the same tokens and the end.  The
tokens of any text, written out again, are the same, unless a number among them is infinite. -/
theorem tokens_respelled :
    (∀ kinds : List TokenKind, (∀ kind ∈ kinds, kind.Writable) →
      ∃ ts, tokens (String.ofList (spelled kinds)) = .ok ts ∧
        ts.map Token.kind = kinds ++ [.stop]) ∧
    ∀ (source : String) (ts : List Token), tokens source = .ok ts →
      (∀ t ∈ ts, ∀ value, t.kind = .number value → value.isInf = false) →
      ∃ ts', tokens (String.ofList (spelled (ts.dropLast.map Token.kind))) = .ok ts' ∧
        ts'.map Token.kind = ts.map Token.kind := by
  refine ⟨fun kinds h => kinds_spelled h, fun source ts h hfinite => ?_⟩
  obtain ⟨kinds, hkinds, hlegible⟩ := kinds_of_tokens h
  have hlast : ts.dropLast.map Token.kind = kinds := by
    rw [List.map_dropLast, hkinds, List.dropLast_concat]
  rw [hlast, hkinds]
  refine kinds_spelled fun kind hkind => (hlegible kind hkind).2.writable fun value hvalue => ?_
  obtain ⟨t, ht, rfl⟩ : ∃ t ∈ ts, t.kind = kind :=
    List.mem_map.mp (hkinds ▸ List.mem_append_left _ hkind)
  exact hfinite t ht value hvalue

/-- Tokens of each kind, and a number that is written in another way than it was. -/
theorem tokens_respelled_sample :
    (∃ ts, tokens (String.ofList (spelled [.keyword .if, .name "x", .sign .same, .number 1e21,
        .string "it's"])) = .ok ts ∧
      ts.map Token.kind = [.keyword .if, .name "x", .sign .same, .number 1e21, .string "it's", .stop]) ∧
    tokens "x===.5" = .ok [⟨.name "x", ⟨1, 1⟩, false⟩, ⟨.sign .same, ⟨1, 2⟩, false⟩,
      ⟨.number 0.5, ⟨1, 5⟩, false⟩, ⟨.stop, ⟨1, 7⟩, false⟩] ∧
    ∃ ts, tokens (String.ofList (spelled [.name "x", .sign .same, .number 0.5])) = .ok ts ∧
      ts.map Token.kind = [.name "x", .sign .same, .number 0.5, .stop] := by
  have htokens : tokens "x===.5" = .ok [⟨.name "x", ⟨1, 1⟩, false⟩, ⟨.sign .same, ⟨1, 2⟩, false⟩,
      ⟨.number 0.5, ⟨1, 5⟩, false⟩, ⟨.stop, ⟨1, 7⟩, false⟩] := by
    rw [← (by decide +kernel : Number.scaled 5 (-1) = 0.5)]
    rfl
  obtain ⟨hspelled, hagain⟩ := tokens_respelled
  refine ⟨hspelled _ ?_, htokens, ?_⟩
  · intro kind hkind
    simp only [List.mem_cons, List.not_mem_nil, or_false] at hkind
    rcases hkind with rfl | rfl | rfl | rfl | rfl
    · exact trivial
    · exact (by decide : isName "x" = true)
    · exact trivial
    · exact (by decide +kernel : isLiteral 1e21 = true)
    · exact trivial
  · have hkinds := hagain _ _ htokens fun t ht value hvalue => by
      simp only [List.mem_cons, List.not_mem_nil, or_false] at ht
      rcases ht with rfl | rfl | rfl | rfl <;> cases hvalue
      decide +kernel
    exact hkinds

end Stencil.Script
