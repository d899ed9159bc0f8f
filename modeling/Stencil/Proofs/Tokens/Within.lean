import Stencil.Proofs.Tokens.Ends
import Stencil.Proofs.Tokens.Words

/-!
# Tokens — a text before a closing brace

A reader that gives something on a text with more after it, and leaves some of the first text, gives the
same on the first text alone (`Within`).  A string and a block comment may look as if they went on into
what comes after, but it closes neither: it holds no quote and no slash.

**Texts before a brace** (`Reads.within`).  If a text has tokens with a line feed and a closing brace
after it, it has them without, and the brace is the last one.
-/

namespace Stencil.Script
open Stencil.Text

/-- **Readers that need nothing after what they read.** -/
def Within {α : Type} (x : List Char) (f : Cursor → Except ParseError (α × Cursor)) : Prop :=
  ∀ cs p a next, f ⟨cs ++ x, p⟩ = .ok (a, next) → x.length < next.rest.length →
    ∀ p', ∃ rest q, next.rest = rest ++ x ∧ f ⟨cs, p'⟩ = .ok (a, ⟨rest, q⟩)

variable {x : List Char}

/-- What is left of a text is not longer than it. -/
theorem not_left {α : Type} {f : Cursor → Except ParseError (α × Cursor)} (hf : Steady f) {p : Position}
    {a : α} {next : Cursor} (e : f ⟨x, p⟩ = .ok (a, next)) : ¬ x.length < next.rest.length :=
  Nat.not_lt.mpr (hf _ _ _ _ e).1.length_le

/-! ### Numbers -/

theorem readHexadecimal_before (hx : Apart x) {cs : List Char} {p : Position} {a : TokenKind}
    {next : Cursor} (e : readHexadecimal ⟨cs ++ x, p⟩ = .ok (a, next)) (p' : Position) :
    ∃ rest q, next.rest = rest ++ x ∧ readHexadecimal ⟨cs, p'⟩ = .ok (a, ⟨rest, q⟩) := by
  simp only [readHexadecimal, Cursor.drop, Apart.drop_append,
    hx.takeWhile_append (p := Number.isHexDigit) (forall_of_all (by decide))] at e ⊢
  cases hv : Number.value? 16 (cs.takeWhile Number.isHexDigit) with
  | none => rw [hv] at e; cases e
  | some n =>
      simp only [hv] at e
      split at e
      · rename_i hn
        cases e
        simp only [if_pos hn]
        exact ⟨_, _, rfl, rfl⟩
      · cases e

theorem readDecimal_before (hx : Apart x) {cs : List Char} {p : Position} {a : TokenKind}
    {next : Cursor} (e : readDecimal ⟨cs ++ x, p⟩ = .ok (a, next)) (p' : Position) :
    ∃ rest q, next.rest = rest ++ x ∧ readDecimal ⟨cs, p'⟩ = .ok (a, ⟨rest, q⟩) := by
  simp only [readDecimal, Cursor.drop, numeralPart_append hx, drop_numeralPart_append,
    hx.head_append (p := isNameStart) (forall_of_all (by decide))] at e ⊢
  split at e
  · cases e
  · rename_i hname
    split at e
    · cases e
      exact ⟨_, _, rfl, if_neg hname⟩
    · cases e

theorem readNumber_before (hx : Apart x) {cs : List Char} {p : Position} {a : TokenKind}
    {next : Cursor} (e : readNumber ⟨cs ++ x, p⟩ = .ok (a, next)) (p' : Position) :
    ∃ rest q, next.rest = rest ++ x ∧ readNumber ⟨cs, p'⟩ = .ok (a, ⟨rest, q⟩) := by
  by_cases hlower : ∃ rest, cs = '0' :: 'x' :: rest
  · obtain ⟨rest, rfl⟩ := hlower
    exact @readHexadecimal_before _ hx rest _ _ _ e _
  by_cases hupper : ∃ rest, cs = '0' :: 'X' :: rest
  · obtain ⟨rest, rfl⟩ := hupper
    exact @readHexadecimal_before _ hx rest _ _ _ e _
  have decimal : ∀ (l : List Char) (q : Position), (∀ rest, l ≠ '0' :: 'x' :: rest) →
      (∀ rest, l ≠ '0' :: 'X' :: rest) → readNumber ⟨l, q⟩ = readDecimal ⟨l, q⟩ := by
    intro l q hl hu
    simp only [readNumber]
  have hlower : ∀ rest, cs ≠ '0' :: 'x' :: rest := fun rest h => hlower ⟨rest, h⟩
  have hupper : ∀ rest, cs ≠ '0' :: 'X' :: rest := fun rest h => hupper ⟨rest, h⟩
  rw [decimal _ _ (fun _ => hx.pair (by decide) (by decide) hlower)
    fun _ => hx.pair (by decide) (by decide) hupper] at e
  rw [decimal _ _ hlower hupper]
  exact readDecimal_before hx e p'

/-! ### Strings -/

theorem readHexDigits_within (count code : Nat) : Within x (readHexDigits count code) := by
  induction count generalizing code with
  | zero =>
      intro cs p a next e _ p'
      cases e
      exact ⟨cs, p', rfl, rfl⟩
  | succ count ih =>
      intro cs p a next e hl p'
      cases cs with
      | nil => exact absurd hl (not_left (readHexDigits_steady (count + 1) code) e)
      | cons c rest =>
          simp only [List.cons_append, readHexDigits] at e ⊢
          cases hd : Number.digitValue? 16 c with
          | none => rw [hd] at e; cases e
          | some digit =>
              rw [hd] at e
              exact ih _ rest _ a next e hl _

theorem readBracedEscape_within (hx : Apart x) : Within x readBracedEscape := by
  intro cs p a next e hl p'
  simp only [readBracedEscape, Cursor.drop, Apart.drop_append,
    hx.takeWhile_append (p := Number.isHexDigit) (forall_of_all (by decide))] at e ⊢
  cases hempty : (cs.takeWhile Number.isHexDigit).isEmpty with
  | true => rw [hempty] at e; cases e
  | false =>
      rw [hempty] at e
      cases hrest : cs.drop (cs.takeWhile Number.isHexDigit).length with
      | nil =>
          -- the brace would stand in the second text
          rw [hrest] at e
          cases x with
          | nil => cases e
          | cons c y =>
              simp only [List.nil_append, Bool.false_eq_true, if_false] at e
              split at e
              · obtain ⟨rfl, -⟩ := characterOf_bind (f := fun c => [c]) e
                exact absurd hl (Nat.not_lt.mpr (Nat.le_succ _))
              · cases e
      | cons c rest =>
          rw [hrest] at e
          simp only [List.cons_append, Bool.false_eq_true, if_false] at e ⊢
          split at e
          · rename_i hc
            obtain ⟨rfl, hchar⟩ := characterOf_bind (f := fun c => [c]) e
            exact ⟨rest, _, rfl, by rw [if_pos hc]; exact hchar _ _⟩
          · cases e

theorem readUnicodeEscape_within : Within x readUnicodeEscape := by
  intro cs p a next e hl p'
  obtain ⟨⟨code, mid⟩, e₁, e₂⟩ := except_bind_ok e
  dsimp only at e₂
  split at e₂
  · rename_i tail hhigh hmid
    obtain ⟨⟨low, after⟩, e₃, e₄⟩ := except_bind_ok e₂
    obtain ⟨rfl, hlow⟩ := halves_elsewhere e₄
    have e₃ : readHexDigits 4 0 ⟨tail, mid.position.along 2⟩ = .ok (low, next) := by
      rw [Cursor.drop, hmid] at e₃
      exact e₃
    have hlen : next.rest.length ≤ tail.length := (readHexDigits_steady 4 0 _ _ _ _ e₃).1.length_le
    obtain ⟨rest, q, hrest, e₁'⟩ := readHexDigits_within 4 0 cs _ _ _ e₁
      (by rw [hmid]; simp only [List.length_cons]; omega) p'
    have hboth : '\\' :: 'u' :: tail = rest ++ x := hmid.symm.trans hrest
    have htail := congrArg List.length hboth
    simp only [List.length_cons, List.length_append] at htail
    -- the second half of the pair is in the first text
    obtain ⟨c, more, rfl⟩ := List.exists_cons_of_length_pos (show 0 < rest.length by omega)
    rw [List.length_cons] at htail
    obtain ⟨d, more, rfl⟩ := List.exists_cons_of_length_pos (show 0 < more.length by omega)
    cases hboth
    obtain ⟨last, q', hlast, e₃'⟩ := readHexDigits_within 4 0 more _ _ _ e₃ hl (q.along 2)
    refine ⟨last, q', hlast, (except_bind_of_ok e₁' _).trans ?_⟩
    simp only [hhigh]
    exact (except_bind_of_ok e₃' _).trans (hlow _)
  · rename_i hnot
    obtain ⟨rfl, hchar⟩ := characterOf_bind (f := fun c => [c]) e₂
    obtain ⟨rest, q, hrest, e₁'⟩ := readHexDigits_within 4 0 cs _ _ _ e₁ hl p'
    refine ⟨rest, q, hrest, (except_bind_of_ok e₁' _).trans ?_⟩
    dsimp only
    split
    · rename_i tail hhigh
      exact absurd hrest (hnot (tail ++ x) hhigh)
    · exact hchar _ _

theorem readEscape_within (hx : Apart x) : Within x readEscape := by
  intro cs p a next e hl p'
  cases cs with
  | nil => exact absurd hl (Nat.not_lt.mpr (readEscape_steady e).1.length_le)
  | cons c rest =>
      simp only [List.cons_append, readEscape] at e ⊢
      split at e
      -- a zero, which the next character decides on
      case h_7 =>
          have hd := hx.head_append (p := Char.isDigit) (forall_of_all (by decide)) rest
          rw [hd] at e
          split at e
          · rename_i h
            cases e
            exact ⟨rest, _, rfl, if_pos h⟩
          · rename_i h
            cases e
            exact ⟨rest, _, rfl, if_neg h⟩
      -- two digits
      case h_8 =>
          obtain ⟨⟨code, mid⟩, e₁, e₂⟩ := except_bind_ok e
          obtain ⟨rfl, hchar⟩ := characterOf_bind (f := fun c => [c]) e₂
          obtain ⟨rest', q, hrest, e₁'⟩ := readHexDigits_within 2 0 rest _ _ _ e₁ hl _
          exact ⟨rest', q, hrest, (except_bind_of_ok e₁' _).trans (hchar _ _)⟩
      -- a code in braces, or four digits
      case h_9 =>
          split at e
          · rename_i tail heq
            obtain ⟨more, rfl, rfl⟩ := hx.exists_cons (by decide) heq
            exact readBracedEscape_within hx more _ _ _ e hl _
          · rename_i hbrace
            obtain ⟨last, q, hlast, e'⟩ := readUnicodeEscape_within rest _ _ _ e hl
              (p'.after 'u' rest)
            refine ⟨last, q, hlast, ?_⟩
            split
            · rename_i tail
              exact absurd rfl (hbrace (tail ++ x))
            · exact e'
      -- a carriage return, with a line feed after it
      case h_10 =>
          split at e
          · rename_i tail heq
            cases e
            cases rest with
            | nil =>
                -- the line feed would stand in the second text
                rw [List.nil_append] at heq
                rw [heq] at hl
                exact absurd hl (Nat.not_lt.mpr (Nat.le_succ _))
            | cons d more =>
                cases heq
                exact ⟨more, _, rfl, rfl⟩
          · rename_i hnewline
            cases e
            refine ⟨rest, p'.after '\r' rest, rfl, ?_⟩
            split
            · rename_i tail
              exact absurd rfl (hnewline (tail ++ x))
            · rfl
      all_goals
        cases e
        exact ⟨rest, _, rfl, rfl⟩

namespace Unquotes

variable {quote : Char} {done : List Char} {cursor after : Cursor} {value : String}
  (h : Unquotes quote done cursor value after)
include h

/-- A string ends with its quote. -/
theorem quote_mem : quote ∈ cursor.rest := by
  induction h with
  | quote => exact List.mem_cons_self
  | escape _ hread _ ih => exact List.mem_cons_of_mem _ ((readEscape_steady hread).1.mem ih)
  | plain _ _ _ ih => exact List.mem_cons_of_mem _ ih

/-- A string that is closed before a second text needs nothing of it. -/
theorem within (hx : Apart x) (hquote : quote ∉ x) : ∀ cs, cursor.rest = cs ++ x → ∀ p,
    ∃ rest q, after.rest = rest ++ x ∧ Unquotes quote done ⟨cs, p⟩ value ⟨rest, q⟩ := by
  induction h with
  | quote =>
      intro cs hcs p
      rcases List.cons_eq_append_iff.mp hcs with ⟨-, rfl⟩ | ⟨rest, rfl, hrest⟩
      · exact absurd List.mem_cons_self hquote
      · exact ⟨rest, _, hrest, .quote⟩
  | @escape done text characters p mid after value hq hread more ih =>
      intro cs hcs p'
      rcases List.cons_eq_append_iff.mp hcs with ⟨-, rfl⟩ | ⟨rest, rfl, rfl⟩
      · exact absurd (Unquotes.escape hq hread more).quote_mem hquote
      -- the quote is still to come, so that the escape ends in the first text
      have hleft : x.length < mid.rest.length := Nat.lt_of_not_le fun hle =>
        hquote ((List.suffix_of_suffix_length_le (readEscape_steady hread).1
          (List.suffix_append rest x) hle).mem more.quote_mem)
      obtain ⟨left, q, hmid, hread'⟩ := readEscape_within hx rest _ _ _ hread hleft
        (p'.after '\\' rest)
      obtain ⟨last, q', hlast, more'⟩ := ih left hmid q
      exact ⟨last, q', hlast, .escape hq hread' more'⟩
  | @plain c done text p after value hq hc more ih =>
      intro cs hcs p'
      rcases List.cons_eq_append_iff.mp hcs with ⟨-, rfl⟩ | ⟨rest, rfl, rfl⟩
      · exact absurd (Unquotes.plain hq hc more).quote_mem hquote
      obtain ⟨last, q, hlast, more'⟩ := ih rest rfl (p'.after c rest)
      exact ⟨last, q, hlast, .plain hq hc more'⟩

end Unquotes

theorem readString_before (hx : Apart x) {quote : Char} (hquote : quote ∉ x) {cs : List Char}
    {p : Position} {a : TokenKind} {next : Cursor}
    (e : readString quote ⟨cs ++ x, p⟩ = .ok (a, next)) (p' : Position) :
    ∃ rest q, next.rest = rest ++ x ∧ readString quote ⟨cs, p'⟩ = .ok (a, ⟨rest, q⟩) := by
  obtain ⟨⟨value, cursor⟩, e₁, e₂⟩ := except_bind_ok e
  cases e₂
  obtain ⟨rest, q, hrest, unquotes⟩ := (unquotes_of_readQuoted e₁).within hx hquote cs rfl p'
  exact ⟨rest, q, hrest, except_bind_of_ok (unquotes.readQuoted (Nat.lt_succ_self _)) _⟩

/-! ### One token -/

theorem readSign_before (hx : Apart x) {c : Char} {cs : List Char} {p : Position} {a : TokenKind}
    {next : Cursor} (e : readSign ⟨c :: cs ++ x, p⟩ = .ok (a, next)) (p' : Position) :
    ∃ rest q, next.rest = rest ++ x ∧ readSign ⟨c :: cs, p'⟩ = .ok (a, ⟨rest, q⟩) := by
  simp only [readSign, isPrefixOf_spelling hx] at e
  split at e
  · rename_i sign hfind
    have hspelled : sign.spelling.toList <+: c :: cs := by
      have h := List.find?_some hfind
      exact List.isPrefixOf_iff_prefix.mp h
    cases e
    refine ⟨(c :: cs).drop sign.spelling.length, p'.along sign.spelling.length, ?_, ?_⟩
    · simp only [Cursor.drop]
      rw [List.drop_append_of_le_length]
      rw [← String.length_toList]
      exact hspelled.length_le
    · simp only [readSign, hfind, Cursor.drop]
  · cases e

/-- **One token.**  A token that begins in the first text ends there. -/
theorem readToken_before (hx : Apart x) (hquotes : '\'' ∉ x ∧ '"' ∉ x) {c : Char} {cs : List Char}
    {p : Position} {kind : TokenKind} {next : Cursor}
    (e : readToken ⟨c :: cs ++ x, p⟩ = .ok (kind, next)) (p' : Position) :
    ∃ rest q, next.rest = rest ++ x ∧ readToken ⟨c :: cs, p'⟩ = .ok (kind, ⟨rest, q⟩) := by
  simp only [List.cons_append, readToken,
    hx.head_append (p := Char.isDigit) (forall_of_all (by decide))] at e ⊢
  by_cases hname : isNameStart c = true
  · rw [if_pos hname] at e ⊢
    obtain ⟨q, hq⟩ := readWord_append (c :: cs) p' p hx
    rw [List.cons_append] at hq
    rw [hq] at e
    cases e
    exact ⟨_, _, rfl, rfl⟩
  rw [if_neg hname] at e ⊢
  by_cases hdigit : c.isDigit = true
  · rw [if_pos hdigit] at e ⊢
    exact readNumber_before hx e p'
  rw [if_neg hdigit] at e ⊢
  by_cases hdot : (c == '.' && (cs.head?.map Char.isDigit).getD false) = true
  · rw [if_pos hdot] at e ⊢
    exact readNumber_before hx e p'
  rw [if_neg hdot] at e ⊢
  by_cases hquote : (c == '\'' || c == '"') = true
  · rw [if_pos hquote] at e ⊢
    refine readString_before hx ?_ e _
    rcases Bool.or_eq_true_iff.mp hquote with h | h <;> rw [beq_iff_eq.mp h]
    · exact hquotes.1
    · exact hquotes.2
  · rw [if_neg hquote] at e ⊢
    exact readSign_before hx e p'

/-! ### Between tokens -/

/-- A block comment ends with a slash. -/
theorem skipGap_unterminated {cs : List Char} (h : '/' ∉ cs) (newline : Bool) (p : Position) :
    ∃ e, skipGap .blockComment newline p cs = .error e := by
  induction cs generalizing newline p with
  | nil => exact ⟨_, rfl⟩
  | cons c cs ih =>
      have hcs : '/' ∉ cs := fun hm => h (List.mem_cons_of_mem c hm)
      have hstep : GapStep .blockComment [c] cs .blockComment := .inBlock fun r _ hr =>
        hcs (by rw [hr]; exact List.mem_cons_self)
      rw [← List.singleton_append, hstep.skipGap_eq]
      exact ih hcs _ _

/-- **One gap** that does not end. -/
theorem skipGap_error (hx : Apart x) (hslash : '/' ∉ x) {gap : Gap} {newline : Bool} {p : Position}
    {cs : List Char} {e : ParseError} (h : skipGap gap newline p cs = .error e) (p' : Position) :
    ∃ e', skipGap gap newline p' (cs ++ x) = .error e' := by
  induction gap, cs using gap_induction generalizing newline p p' with
  | unterminated => exact skipGap_unterminated hslash _ _
  | ended gap hgap =>
      rw [skipGap_nil hgap] at h
      cases h
  | token c rest hline hblank hcomment =>
      rw [skipGap_none hline hblank hcomment] at h
      cases h
  | step gap front rest inner hstep ih =>
      rw [hstep.skipGap_eq] at h
      rw [List.append_assoc, (hstep.append hx).skipGap_eq]
      exact ih h _

/-- The first token of two texts begins in the first, and ends there, unless only a gap is there. -/
theorem Next.before {cs mid : List Char} {m : Mark} (hx : Apart x)
    (hchars : '/' ∉ x ∧ '\'' ∉ x ∧ '"' ∉ x) (h : Next (cs ++ x) m mid) (hm : m.1.isStop = false) :
    (∃ newline, Over cs newline) ∨ ∃ rest, mid = rest ++ x ∧ Next cs m rest := by
  obtain ⟨text, q, q', e₁, e₂⟩ := h .start
  cases hgap : skipGap .blanks false .start cs with
  | error e =>
      obtain ⟨e', he⟩ := skipGap_error hx hchars.1 hgap .start
      rw [he] at e₁
      cases e₁
  | ok r =>
      obtain ⟨newline, ⟨rest, pos⟩⟩ := r
      cases rest with
      | nil => exact .inl ⟨newline, over_of_run hgap rfl⟩
      | cons c rest =>
          right
          obtain ⟨p₁, he⟩ := (skipGap_steady hgap).2 x .start hx (.inr fun h => by cases h)
          rw [he] at e₁
          cases e₁
          obtain ⟨last, p₂, hlast, e₃⟩ := readToken_before hx hchars.2 e₂ pos
          exact ⟨last, hlast, next_of_run hgap e₃ hm⟩

/-! ### Texts before a brace -/

/-- A line feed and a closing brace. -/
def closingLine : List Char := ['\n', '\x7d']

theorem apart_closingLine : Apart closingLine := .cons (by decide)

/-- After a text of which only a gap is left, the brace is the next token. -/
theorem Over.closingLine {cs : List Char} {newline : Bool} (h : Over cs newline) :
    Next (cs ++ closingLine) (.sign .closeBrace, true) [] :=
  h.lineFeed (Next.alone .closeBrace (by decide) [])

/-- The brace is no gap. -/
theorem not_over_closingLine {cs : List Char} {newline : Bool} :
    ¬ Over (cs ++ closingLine) newline := by
  intro h
  obtain ⟨q, e⟩ := h .start
  cases hgap : skipGap .blanks false .start cs with
  | error e' =>
      obtain ⟨e'', he⟩ := skipGap_error apart_closingLine (by decide) hgap .start
      rw [he] at e
      cases e
  | ok r =>
      obtain ⟨after, ⟨rest, pos⟩⟩ := r
      cases rest with
      | nil => exact h.not_next rfl (over_of_run hgap rfl).closingLine
      | cons c rest =>
          obtain ⟨p, he⟩ := (skipGap_steady hgap).2 Script.closingLine .start apart_closingLine
            (.inr fun h => by cases h)
          rw [he] at e
          cases e

theorem Reads.closingLine_unique {cs rest : List Char} {ms : List Mark} {newline after : Bool}
    (h : Over cs newline) (hr : Reads (cs ++ closingLine) ms rest) (ho : Over rest after) :
    ms = [(.sign .closeBrace, true)] := by
  have hnil : Over [] false := fun p => ⟨p, rfl⟩
  cases hr with
  | nil => exact absurd h.closingLine (ho.not_next rfl)
  | cons hs hn hr =>
      obtain ⟨rfl, rfl⟩ := hn.unique h.closingLine
      cases hr with
      | nil => rfl
      | cons hs' hn' _ => exact absurd hn' (hnil.not_next hs')

/-- **Texts before a brace.** -/
theorem Reads.within {cs rest : List Char} {ms : List Mark} {newline : Bool}
    (h : Reads (cs ++ closingLine) ms rest) (ho : Over rest newline) :
    ∃ ms' rest' newline', ms = ms' ++ [(.sign .closeBrace, true)] ∧ Reads cs ms' rest' ∧
      Over rest' newline' := by
  generalize hall : cs ++ closingLine = all at h
  induction h generalizing cs with
  | nil =>
      subst hall
      exact absurd ho not_over_closingLine
  | @cons all mid rest m ms hs hn hr ih =>
      subst hall
      rcases hn.before apart_closingLine (by decide) hs with ⟨after, hover⟩ | ⟨more, rfl, hn'⟩
      · exact ⟨[], cs, after, Reads.closingLine_unique hover (.cons hs hn hr) ho, .nil, hover⟩
      · obtain ⟨ms', rest', newline', rfl, hr', hover⟩ := ih ho rfl
        exact ⟨m :: ms', rest', newline', rfl, .cons hs hn' hr', hover⟩

end Stencil.Script
