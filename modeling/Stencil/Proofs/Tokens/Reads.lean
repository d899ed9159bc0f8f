import Stencil.Proofs.Tokens.Steady

/-!
# Tokens — a text and its tokens

`Reads cs marks rest`: the text `cs` begins with tokens of these kinds, with a line ending before
those that are so marked, and `rest` comes after them.  The remaining text is the real one, so that
readings compose without cutting a token in two.  `Over cs newline`: only a gap is left.

**Tokens** (`tokens_of_reads`, `reads_of_tokens`).  The tokens of a text are what it reads as, up to
positions.

**Texts in sequence** (`Reads.append_apart`).  A text reads the same with a text that stands apart
after it.
-/

namespace Stencil.Script
open Stencil.Text

/-- A token without its place: its kind, and whether a line ends before it. -/
abbrev Mark := TokenKind × Bool

/-- What a token is without its place. -/
def Token.mark (t : Token) : Mark := (t.kind, t.newlineBefore)

/-- **A gap and a token** at the front of a text, wherever it stands. -/
def Next (cs : List Char) (m : Mark) (rest : List Char) : Prop :=
  ∀ p, ∃ mid q q', skipGap .blanks false p cs = .ok (m.2, ⟨mid, q⟩) ∧
    readToken ⟨mid, q⟩ = .ok (m.1, ⟨rest, q'⟩)

/-- Only a gap is left. -/
def Over (cs : List Char) (newline : Bool) : Prop :=
  ∀ p, ∃ q, skipGap .blanks false p cs = .ok (newline, ⟨[], q⟩)

/-- **Tokens at the front of a text.** -/
inductive Reads : List Char → List Mark → List Char → Prop where
  | nil {cs : List Char} : Reads cs [] cs
  | cons {cs mid rest : List Char} {m : Mark} {ms : List Mark} : m.1.isStop = false →
      Next cs m mid → Reads mid ms rest → Reads cs (m :: ms) rest

theorem Reads.append {cs mid rest : List Char} {ms ms' : List Mark} (h : Reads cs ms mid)
    (h' : Reads mid ms' rest) : Reads cs (ms ++ ms') rest := by
  induction h with
  | nil => exact h'
  | cons hs hn _ ih => exact .cons hs hn (ih h')

/-! ### One token -/

theorem next_of_run {cs : List Char} {p : Position} {newline : Bool} {kind : TokenKind}
    {mid next : Cursor} (e₁ : skipGap .blanks false p cs = .ok (newline, mid))
    (e₂ : readToken mid = .ok (kind, next)) (hk : kind.isStop = false) :
    Next cs (kind, newline) next.rest := by
  intro p'
  obtain ⟨q, hq⟩ := (skipGap_steady e₁).2 [] p' trivial (.inl rfl)
  rcases readToken_steady e₂ with ⟨rfl, -⟩ | ⟨-, -, -, -, hx⟩
  · cases hk
  · obtain ⟨q', hq'⟩ := hx [] q trivial
    simp only [List.append_nil] at hq hq'
    exact ⟨mid.rest, q, q', hq, hq'⟩

theorem over_of_run {cs : List Char} {p : Position} {newline : Bool} {mid : Cursor}
    (e : skipGap .blanks false p cs = .ok (newline, mid)) (hmid : mid.rest = []) :
    Over cs newline := by
  intro p'
  obtain ⟨q, hq⟩ := (skipGap_steady e).2 [] p' trivial (.inl rfl)
  rw [List.append_nil, List.append_nil, hmid] at hq
  exact ⟨q, hq⟩

namespace Next

variable {cs rest x : List Char} {m : Mark}

theorem suffix (h : Next cs m rest) (hm : m.1.isStop = false) :
    rest <:+ cs ∧ rest.length < cs.length ∧ m.1.Sound := by
  obtain ⟨mid, q, q', e₁, e₂⟩ := h .start
  obtain ⟨hs, -⟩ := skipGap_steady e₁
  rcases readToken_steady e₂ with ⟨hk, -⟩ | ⟨-, hsound, hs', hl, -⟩
  · rw [hk] at hm
    cases hm
  · exact ⟨hs'.trans hs, Nat.lt_of_lt_of_le hl hs.length_le, hsound⟩

theorem append_apart (h : Next cs m rest) (hm : m.1.isStop = false) (hx : Apart x) :
    Next (cs ++ x) m (rest ++ x) := by
  intro p
  obtain ⟨mid, q, q', e₁, e₂⟩ := h p
  rcases readToken_steady e₂ with ⟨hk, -⟩ | ⟨-, -, -, hlen, hx'⟩
  · rw [hk] at hm
    cases hm
  · have hmid : mid ≠ [] := by
      rintro rfl
      cases hlen
    obtain ⟨q₁, hq₁⟩ := (skipGap_steady e₁).2 x p hx (.inr hmid)
    obtain ⟨q₂, hq₂⟩ := hx' x q₁ hx
    exact ⟨mid ++ x, q₁, q₂, hq₁, hq₂⟩

end Next

theorem Next.unique {cs rest rest' : List Char} {m m' : Mark} (h : Next cs m rest)
    (h' : Next cs m' rest') : m = m' ∧ rest = rest' := by
  obtain ⟨mid, q₁, q₂, e₁, e₂⟩ := h .start
  obtain ⟨mid', q₁', q₂', e₁', e₂'⟩ := h' .start
  rw [e₁] at e₁'
  obtain ⟨hn, hc⟩ := Prod.mk.inj (Except.ok.inj e₁')
  cases hc
  rw [e₂] at e₂'
  obtain ⟨hk, hc⟩ := Prod.mk.inj (Except.ok.inj e₂')
  cases hc
  exact ⟨Prod.ext hk hn, rfl⟩

theorem Over.not_next {cs rest : List Char} {newline : Bool} {m : Mark} (h : Over cs newline)
    (hm : m.1.isStop = false) : ¬ Next cs m rest := by
  intro hn
  obtain ⟨q, e⟩ := h .start
  obtain ⟨mid, q₁, q₂, e₁, e₂⟩ := hn .start
  rw [e] at e₁
  cases e₁
  have hk : TokenKind.stop = m.1 := (Prod.mk.inj (Except.ok.inj e₂)).1
  rw [← hk] at hm
  cases hm

namespace Reads

variable {cs rest x : List Char} {ms : List Mark}

theorem suffix (h : Reads cs ms rest) : rest <:+ cs := by
  induction h with
  | nil => exact List.suffix_refl _
  | cons hs hn _ ih => exact ih.trans (hn.suffix hs).1

theorem sound (h : Reads cs ms rest) : ∀ m ∈ ms, m.1.isStop = false ∧ m.1.Sound := by
  induction h with
  | nil => nofun
  | cons hs hn _ ih =>
      intro m hm
      rcases List.mem_cons.mp hm with rfl | hm
      · exact ⟨hs, (hn.suffix hs).2.2⟩
      · exact ih m hm

/-- **Texts in sequence.** -/
theorem append_apart (h : Reads cs ms rest) (hx : Apart x) : Reads (cs ++ x) ms (rest ++ x) := by
  induction h with
  | nil => exact .nil
  | cons hs hn _ ih => exact .cons hs (hn.append_apart hs hx) ih

end Reads

/-! ### A line before -/

/-- Whether a line ended before a gap changes nothing but what is told about lines. -/
theorem skipGap_line (gap : Gap) (newline : Bool) (p : Position) (cs : List Char) :
    skipGap gap true p cs = (skipGap gap newline p cs).map fun r => (true, r.2) := by
  induction gap, cs using gap_induction generalizing newline p with
  | unterminated => rfl
  | ended gap hgap =>
      rw [skipGap_nil hgap, skipGap_nil hgap]
      rfl
  | token c rest hline hblank hcomment =>
      rw [skipGap_none hline hblank hcomment, skipGap_none hline hblank hcomment]
      rfl
  | step gap front rest inner hstep ih =>
      rw [hstep.skipGap_eq, hstep.skipGap_eq, Bool.true_or]
      exact ih _ _

theorem skipGap_true {gap : Gap} {newline after : Bool} {p : Position} {cs : List Char}
    {next : Cursor} (e : skipGap gap newline p cs = .ok (after, next)) :
    skipGap gap true p cs = .ok (true, next) := by
  rw [skipGap_line gap newline, e]
  rfl

theorem skipGap_newline (cs : List Char) (p : Position) (newline : Bool) :
    ∃ q, skipGap .blanks newline p ('\n' :: cs) = skipGap .blanks true q cs := by
  refine ⟨p.after '\n' cs, ?_⟩
  rw [← List.singleton_append, (GapStep.lineEnd (by decide) cs).skipGap_eq, Bool.or_comm]
  rfl

theorem skipGap_space (cs : List Char) (p : Position) (newline : Bool) :
    ∃ q, skipGap .blanks newline p (' ' :: cs) = skipGap .blanks newline q cs := by
  refine ⟨p.after ' ' cs, ?_⟩
  rw [← List.singleton_append, (GapStep.blank (by decide) (by decide) cs).skipGap_eq, Bool.or_comm]
  rfl

theorem Next.newline {cs rest : List Char} {m : Mark} (h : Next cs m rest) :
    Next ('\n' :: cs) (m.1, true) rest := by
  intro p
  obtain ⟨q, hq⟩ := skipGap_newline cs p false
  obtain ⟨mid, q₁, q₂, e₁, e₂⟩ := h q
  exact ⟨mid, q₁, q₂, by rw [hq, skipGap_true e₁], e₂⟩

theorem Next.space {cs rest : List Char} {m : Mark} (h : Next cs m rest) :
    Next (' ' :: cs) m rest := by
  intro p
  obtain ⟨q, hq⟩ := skipGap_space cs p false
  obtain ⟨mid, q₁, q₂, e₁, e₂⟩ := h q
  exact ⟨mid, q₁, q₂, by rw [hq, e₁], e₂⟩

theorem Reads.space {cs rest : List Char} {m : Mark} {ms : List Mark} (h : Reads cs (m :: ms) rest) :
    Reads (' ' :: cs) (m :: ms) rest := by
  cases h with
  | cons hs hn h => exact .cons hs hn.space h

theorem Reads.newline {cs rest : List Char} {m : Mark} {ms : List Mark}
    (h : Reads cs (m :: ms) rest) : Reads ('\n' :: cs) ((m.1, true) :: ms) rest := by
  cases h with
  | cons hs hn h => exact .cons hs hn.newline h

/-- What a text begins with is what all of it reads as begins with, and the rest of it reads as the
rest. -/
theorem Reads.begins {cs mid rest : List Char} {ms ms' : List Mark} {newline : Bool}
    (h : Reads cs ms mid) (h' : Reads cs ms' rest) (hover : Over rest newline) :
    ∃ ms'', ms' = ms ++ ms'' ∧ Reads mid ms'' rest := by
  induction h generalizing ms' with
  | nil => exact ⟨ms', rfl, h'⟩
  | cons hs hn _ ih =>
      cases h' with
      | nil => exact absurd hn (hover.not_next hs)
      | cons _ hn' hr =>
          obtain ⟨rfl, rfl⟩ := hn.unique hn'
          obtain ⟨ms'', rfl, hmore⟩ := ih hr
          exact ⟨ms'', rfl, hmore⟩

/-! ### All tokens -/

theorem readTokens_next {cs rest : List Char} {kind : TokenKind} {newline : Bool}
    (h : Next cs (kind, newline) rest) (hk : kind.isStop = false) (bound : Nat) (done : List Token)
    (p : Position) : ∃ t q, t.mark = (kind, newline) ∧
      readTokens (bound + 1) done ⟨cs, p⟩ = readTokens bound (t :: done) ⟨rest, q⟩ := by
  obtain ⟨mid, q, q', e₁, e₂⟩ := h p
  refine ⟨⟨kind, q, newline⟩, q', rfl, ?_⟩
  simp only [readTokens, e₁, e₂, hk, Bool.false_eq_true, if_false]

theorem readTokens_over {cs : List Char} {newline : Bool} (h : Over cs newline) (bound : Nat)
    (done : List Token) (p : Position) : ∃ t, t.mark = (.stop, newline) ∧
      readTokens (bound + 1) done ⟨cs, p⟩ = .ok (t :: done).reverse := by
  obtain ⟨q, e⟩ := h p
  refine ⟨⟨.stop, q, newline⟩, rfl, ?_⟩
  simp only [readTokens, e, readToken, TokenKind.isStop, if_true]

theorem readTokens_of_reads {cs rest : List Char} {ms : List Mark} {newline : Bool}
    (h : Reads cs ms rest) (hover : Over rest newline) {bound : Nat} (hb : cs.length < bound)
    (done : List Token) (p : Position) : ∃ ts, readTokens bound done ⟨cs, p⟩ = .ok ts ∧
      ts.map Token.mark = done.reverse.map Token.mark ++ (ms ++ [(.stop, newline)]) := by
  induction h generalizing bound done p with
  | nil =>
      obtain ⟨bound, rfl⟩ : ∃ b, bound = b + 1 := ⟨bound - 1, by omega⟩
      obtain ⟨t, ht, e⟩ := readTokens_over hover bound done p
      exact ⟨_, e, by simp [ht]⟩
  | @cons cs mid rest m ms hs hn _ ih =>
      obtain ⟨bound, rfl⟩ : ∃ b, bound = b + 1 := ⟨bound - 1, by omega⟩
      obtain ⟨t, q, ht, e⟩ := readTokens_next hn hs bound done p
      have hl := (hn.suffix hs).2.1
      obtain ⟨ts, e', hts⟩ := ih hover (show mid.length < bound by omega) (t :: done) q
      exact ⟨ts, by rw [e, e'], by simp [hts, ht]⟩

/-! ### Rounds -/

/-- **The rounds of reading.**  Each skips a gap.  The text is over after it, or a token is read, with
less of the text left. -/
inductive Rounds : List Token → Cursor → List Token → Prop where
  | stop {done : List Token} {cursor mid last : Cursor} {newline : Bool}
      (gap : skipGap .blanks false cursor.position cursor.rest = .ok (newline, mid))
      (token : readToken mid = .ok (.stop, last)) (hend : mid.rest = []) :
      Rounds done cursor (⟨.stop, mid.position, newline⟩ :: done).reverse
  | next {done ts : List Token} {cursor mid after : Cursor} {newline : Bool} {kind : TokenKind}
      (gap : skipGap .blanks false cursor.position cursor.rest = .ok (newline, mid))
      (token : readToken mid = .ok (kind, after)) (hk : kind.isStop = false)
      (shorter : after.rest.length < mid.rest.length)
      (more : Rounds (⟨kind, mid.position, newline⟩ :: done) after ts) :
      Rounds done cursor ts

/-- With a bound above the length of the text, reading ends when the text does. -/
theorem rounds_of_readTokens {bound : Nat} {done ts : List Token} {cursor : Cursor}
    (e : readTokens bound done cursor = .ok ts) (hb : cursor.rest.length < bound) :
    Rounds done cursor ts := by
  induction bound generalizing done cursor with
  | zero => exact absurd hb (Nat.not_lt_zero _)
  | succ bound ih =>
      rw [readTokens] at e
      split at e
      · cases e
      · rename_i newline mid gap
        split at e
        · cases e
        · rename_i kind after token
          rcases readToken_steady token with ⟨rfl, hend⟩ | ⟨hk, -, -, shorter, -⟩
          · cases e
            exact .stop gap token hend
          · rw [hk] at e
            have hlen : mid.rest.length ≤ cursor.rest.length := (skipGap_steady gap).1.length_le
            exact .next gap token hk shorter (ih e (by omega))

theorem Rounds.reads {done ts : List Token} {cursor : Cursor} (h : Rounds done cursor ts) :
    ∃ ms rest newline, Reads cursor.rest ms rest ∧ Over rest newline ∧
      ts.map Token.mark = done.reverse.map Token.mark ++ (ms ++ [(.stop, newline)]) := by
  induction h with
  | stop gap _ hend => exact ⟨[], _, _, .nil, over_of_run gap hend, by simp [Token.mark]⟩
  | next gap token hk _ _ ih =>
      obtain ⟨ms, rest, newline, hr, hover, hts⟩ := ih
      exact ⟨_, rest, newline, .cons hk (next_of_run gap token hk) hr, hover,
        by simp [hts, Token.mark]⟩

/-- **Tokens.** -/
theorem tokens_of_reads {source : String} {ms : List Mark} {rest : List Char} {newline : Bool}
    (h : Reads source.toList ms rest) (hover : Over rest newline) :
    ∃ ts, tokens source = .ok ts ∧ ts.map Token.mark = ms ++ [(.stop, newline)] :=
  readTokens_of_reads h hover (Nat.lt_succ_self _) [] .start

theorem reads_of_tokens {source : String} {ts : List Token} (h : tokens source = .ok ts) :
    ∃ ms rest newline, Reads source.toList ms rest ∧ Over rest newline ∧
      ts.map Token.mark = ms ++ [(.stop, newline)] :=
  (rounds_of_readTokens h (Nat.lt_succ_self _)).reads

end Stencil.Script
