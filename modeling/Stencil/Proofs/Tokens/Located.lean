import Stencil.Proofs.Tokens.Steady

/-!
# Tokens — where they stand

A reader moves the position on over the characters that it takes, and says of an error where it has got
to.  `p.through before rest` is the position after the text `before`, read from `p` on, with `rest` after
it.  `Located cs f` says of a reader `f` at the beginning of `cs` that it ends at such a position, and at the
same place of `cs` whatever the position it begins with.

**Positions** (`tokens_located`).  Each token of a text stands where its position says, and so does what
cannot be read.
-/

namespace Stencil.Text

namespace Position

theorem through_append (p : Position) (before more rest : List Char) :
    p.through (before ++ more) rest = (p.through before (more ++ rest)).through more rest := by
  induction before generalizing p with
  | nil => rfl
  | cons c before ih =>
      rw [List.cons_append, through, through, ih, List.append_assoc]

theorem through_unbroken (p : Position) {before : List Char}
    (h : ∀ c ∈ before, isLineEnd c = false) (rest : List Char) :
    p.through before rest = p.along before.length := by
  induction before generalizing p with
  | nil => rfl
  | cons c before ih =>
      rw [through, after, h c List.mem_cons_self, if_neg Bool.false_ne_true,
        ih _ fun d hd => h d (List.mem_cons_of_mem c hd)]
      simp only [along, List.length_cons]
      congr 1
      omega

end Position

end Stencil.Text

namespace Stencil.Script
open Stencil.Text

/-- The characters that end lines. -/
def lineEnds : List Char := ['\n', '\r', '\u2028', '\u2029']

theorem mem_lineEnds {c : Char} (h : isLineEnd c = true) : c ∈ lineEnds := by
  simp only [isLineEnd, Bool.or_eq_true, beq_iff_eq] at h
  rcases h with ((h | h) | h) | h <;> rw [h] <;> decide

theorem not_isLineEnd {test : Char → Bool} (h : ∀ c ∈ lineEnds, test c = false) {c : Char}
    (hc : test c = true) : isLineEnd c = false :=
  Bool.eq_false_iff.mpr fun hline => by
    rw [h c (mem_lineEnds hline)] at hc
    cases hc

/-- No part of a name ends a line. -/
theorem not_isLineEnd_of_isNamePart {c : Char} (h : isNamePart c = true) : isLineEnd c = false :=
  not_isLineEnd (forall_of_all (by decide +kernel)) h

/-- The front of the first line of a text. -/
def InLine (front cs : List Char) : Prop :=
  front <+: cs ∧ ∀ c ∈ front, isLineEnd c = false

namespace InLine

variable {front more cs : List Char}

theorem nil : InLine [] cs :=
  ⟨List.nil_prefix, fun _ h => (List.not_mem_nil h).elim⟩

theorem cons {c : Char} (hc : isLineEnd c = false) (h : InLine front cs) :
    InLine (c :: front) (c :: cs) :=
  ⟨List.cons_prefix_cons.mpr ⟨rfl, h.1⟩, List.forall_mem_cons.mpr ⟨hc, h.2⟩⟩

theorem append (h : InLine front cs) (h' : InLine more (cs.drop front.length)) :
    InLine (front ++ more) cs := by
  obtain ⟨⟨rest, rfl⟩, hline⟩ := h
  rw [List.drop_left] at h'
  exact ⟨(List.prefix_append_right_inj front).mpr h'.1, List.forall_mem_append.mpr ⟨hline, h'.2⟩⟩

/-- Characters of a class that no line end is in. -/
theorem takeWhile (test : Char → Bool) (h : ∀ c ∈ lineEnds, test c = false) (cs : List Char) :
    InLine (cs.takeWhile test) cs :=
  ⟨List.takeWhile_prefix test, fun c hc =>
    not_isLineEnd h (List.all_eq_true.mp List.all_takeWhile c hc)⟩

theorem digits (cs : List Char) : InLine (cs.takeWhile Char.isDigit) cs :=
  takeWhile Char.isDigit (forall_of_all (by decide)) cs

theorem withDigits (before : List Char) (h : ∀ c ∈ before, isLineEnd c = false) (cs : List Char) :
    InLine (withDigits before cs) (before ++ cs) := by
  simp only [Script.withDigits]
  split
  · exact nil
  · refine append ⟨List.prefix_append _ _, h⟩ ?_
    rw [List.drop_left]
    exact digits cs

theorem exponent (cs : List Char) : InLine (exponentPart cs) cs := by
  match cs with
  | [] => exact nil
  | mark :: rest =>
      simp only [exponentPart]
      split
      · rename_i hmark
        have hline : isLineEnd mark = false := by
          rcases Bool.or_eq_true_iff.mp hmark with h | h <;> rw [beq_iff_eq.mp h] <;> decide
        split
        · exact withDigits [mark, '+'] (by simp [hline]; decide) _
        · exact withDigits [mark, '-'] (by simp [hline]; decide) _
        · exact withDigits [mark] (by simp [hline]) _
      · exact nil

theorem numeral (cs : List Char) : InLine (numeralPart cs) cs := by
  simp only [numeralPart]
  split
  · rename_i tail heq
    rw [List.append_assoc]
    refine (digits cs).append ?_
    rw [heq]
    exact .cons (by decide) ((digits tail).append (exponent _))
  · exact (digits cs).append (exponent _)

end InLine

/-- **Readers that move on over what they read.** -/
def Located {α : Type} (cs : List Char) (f : Position → Except ParseError (α × Cursor)) : Prop :=
  (∃ a before rest, cs = before ++ rest ∧ ∀ p, f p = .ok (a, ⟨rest, p.through before rest⟩)) ∨
    ∃ cause before rest, cs = before ++ rest ∧ ∀ p, f p = .error ⟨cause, p.through before rest⟩

namespace Located

variable {α β : Type} {cs : List Char}

theorem congr {f g : Position → Except ParseError (α × Cursor)} (h : Located cs f)
    (hg : ∀ p, g p = f p) : Located cs g := by
  rw [funext hg]
  exact h

theorem here (a : α) : Located cs fun p => .ok (a, ⟨cs, p⟩) :=
  .inl ⟨a, [], cs, rfl, fun _ => rfl⟩

theorem fails (cause : ParseError.Cause) :
    Located cs fun p => (.error ⟨cause, p⟩ : Except ParseError (α × Cursor)) :=
  .inr ⟨cause, [], cs, rfl, fun _ => rfl⟩

/-- A reader that goes on after some characters. -/
theorem after (before : List Char) {rest : List Char} {f : Position → Except ParseError (α × Cursor)}
    (h : Located rest f) : Located (before ++ rest) fun p => f (p.through before rest) := by
  rcases h with ⟨a, more, rest, rfl, h⟩ | ⟨cause, more, rest, rfl, h⟩
  · refine .inl ⟨a, before ++ more, rest, (List.append_assoc _ _ _).symm, fun p => ?_⟩
    rw [Position.through_append]
    exact h _
  · refine .inr ⟨cause, before ++ more, rest, (List.append_assoc _ _ _).symm, fun p => ?_⟩
    rw [Position.through_append]
    exact h _

/-- A reader that goes on after one character. -/
theorem past {c : Char} {rest : List Char} {f : Cursor → Except ParseError (α × Cursor)}
    (h : Located rest fun p => f ⟨rest, p⟩) :
    Located (c :: rest) fun p => f (Cursor.past ⟨c :: rest, p⟩ c rest) :=
  h.after [c]

/-- A reader that goes on after the front of a line. -/
theorem drop {front : List Char} {f : Cursor → Except ParseError (α × Cursor)}
    (hfront : InLine front cs)
    (h : Located (cs.drop front.length) fun p => f ⟨cs.drop front.length, p⟩) :
    Located cs fun p => f (Cursor.drop ⟨cs, p⟩ front.length) := by
  obtain ⟨⟨rest, rfl⟩, hline⟩ := hfront
  rw [List.drop_left] at h
  have hafter := h.after front
  simp only [Position.through_unbroken _ hline] at hafter
  simpa only [Cursor.drop, List.drop_left] using hafter

/-- A reader that takes the front of a line. -/
theorem takes {front : List Char} (hfront : InLine front cs) (a : α) :
    Located cs fun p => .ok (a, Cursor.drop ⟨cs, p⟩ front.length) :=
  drop (f := fun next => .ok (a, next)) hfront (here a)

/-- A reader that fails after the front of a line. -/
theorem failsAfter {front : List Char} (hfront : InLine front cs) (cause : ParseError.Cause) :
    Located cs fun p => (.error ⟨cause, (Cursor.drop ⟨cs, p⟩ front.length).position⟩ :
      Except ParseError (α × Cursor)) :=
  drop (f := fun next => .error ⟨cause, next.position⟩) hfront (fails cause)

/-- **Readers in sequence.** -/
theorem bind {f : Position → Except ParseError (α × Cursor)}
    {g : α × Cursor → Except ParseError (β × Cursor)} (hf : Located cs f)
    (hg : ∀ a rest, Located rest fun p => g (a, ⟨rest, p⟩)) : Located cs fun p => f p >>= g := by
  rcases hf with ⟨a, before, rest, rfl, h⟩ | ⟨cause, before, rest, rfl, h⟩
  · simp only [h]
    exact (hg a rest).after before
  · simp only [h]
    exact .inr ⟨cause, before, rest, rfl, fun _ => rfl⟩

/-- A character by its code point, and what is made of it. -/
theorem character (code : Nat) (f : Char → α) :
    Located cs fun p => characterOf code p >>= fun c => pure (f c, ⟨cs, p⟩) := by
  simp only [characterOf]
  by_cases hcode : 0x10FFFF < code
  · simp only [if_pos hcode]
    exact fails _
  · by_cases hvalid : code.isValidChar
    · simp only [if_neg hcode, if_pos hvalid]
      exact here _
    · simp only [if_neg hcode, if_neg hvalid]
      exact here _

end Located

/-! ### Words, numbers and signs -/

/-! ### Words, numbers and signs -/

theorem readWord_located (cs : List Char) : Located cs fun p => .ok (readWord ⟨cs, p⟩) := by
  simp only [readWord]
  exact .takes (.takeWhile isNamePart (forall_of_all (by decide +kernel)) cs) _

theorem readHexadecimal_located (cs : List Char) : Located cs fun p => readHexadecimal ⟨cs, p⟩ := by
  have hdigits := InLine.takeWhile Number.isHexDigit (forall_of_all (by decide)) cs
  simp only [readHexadecimal]
  cases Number.value? 16 (cs.takeWhile Number.isHexDigit) with
  | none => exact .failsAfter hdigits _
  | some n =>
      by_cases hn : n < UInt64.size
      · simp only [if_pos hn]
        exact .takes hdigits _
      · simp only [if_neg hn]
        exact .failsAfter hdigits _

theorem readDecimal_located (cs : List Char) : Located cs fun p => readDecimal ⟨cs, p⟩ := by
  have hnumeral := InLine.numeral cs
  simp only [readDecimal]
  cases hname : ((cs.drop (numeralPart cs).length).head?.map isNameStart).getD false with
  | true =>
      simp only [Cursor.drop, hname]
      exact .failsAfter hnumeral _
  | false =>
      simp only [Cursor.drop, hname]
      cases Number.unsigned? (numeralPart cs) with
      | none => exact .failsAfter hnumeral _
      | some value => exact .takes hnumeral _

theorem readNumber_located (cs : List Char) : Located cs fun p => readNumber ⟨cs, p⟩ := by
  have hex : ∀ mark rest, isLineEnd mark = false → Located ('0' :: mark :: rest) fun p =>
      readHexadecimal (Cursor.drop ⟨'0' :: mark :: rest, p⟩ 2) := fun mark rest hmark => by
    have hfront : InLine ['0', mark] ('0' :: mark :: rest) := .cons (by decide) (.cons hmark .nil)
    exact .drop hfront (readHexadecimal_located rest)
  simp only [readNumber]
  split
  · exact hex 'x' _ (by decide)
  · exact hex 'X' _ (by decide)
  · exact readDecimal_located cs

theorem readSign_located (cs : List Char) : Located cs fun p => readSign ⟨cs, p⟩ := by
  simp only [readSign]
  cases h : Punctuator.longestFirst.find? (·.spelling.toList.isPrefixOf cs) with
  | none => exact .fails _
  | some sign =>
      have hspelled : sign.spelling.toList <+: cs := by
        have hfound := List.find?_some h
        exact List.isPrefixOf_iff_prefix.mp hfound
      have hline : ∀ c ∈ sign.spelling.toList, isLineEnd c = false := by
        cases sign <;> exact forall_of_all (by decide)
      simp only [← String.length_toList]
      exact .takes ⟨hspelled, hline⟩ _

/-! ### Strings -/

theorem readHexDigits_located (count code : Nat) (cs : List Char) :
    Located cs fun p => readHexDigits count code ⟨cs, p⟩ := by
  induction count generalizing code cs with
  | zero => exact .here code
  | succ count ih =>
      cases cs with
      | nil => exact .fails _
      | cons c rest =>
          simp only [readHexDigits]
          cases Number.digitValue? 16 c with
          | none => exact .fails _
          | some digit => exact .past (ih _ rest)

/-- A braced escape after its digits. -/
def endBraced (digits : List Char) (cursor : Cursor) : Except ParseError (List Char × Cursor) :=
  if digits.isEmpty then .error ⟨.invalidUnicodeEscape, cursor.position⟩
  else
    match cursor.rest with
    | [] => .error ⟨.invalidUnicodeEscape, cursor.position⟩
    | c :: rest =>
      let cursor := cursor.past c rest
      if c == '\x7d' then do
        let character ← characterOf (Number.value 16 digits) cursor.position
        pure ([character], cursor)
      else .error ⟨.invalidUnicodeEscape, cursor.position⟩

theorem endBraced_located (digits cs : List Char) : Located cs fun p => endBraced digits ⟨cs, p⟩ := by
  unfold endBraced
  cases digits.isEmpty with
  | true => exact .fails _
  | false =>
      cases cs with
      | nil => exact .fails _
      | cons c rest =>
          by_cases hc : (c == '\x7d') = true
          · simp only [Bool.false_eq_true, if_false, if_pos hc]
            exact Located.after [c] (Located.character _ fun c => [c])
          · simp only [Bool.false_eq_true, if_false, if_neg hc]
            exact Located.after [c] (.fails _)

theorem readBracedEscape_located (cs : List Char) : Located cs fun p => readBracedEscape ⟨cs, p⟩ :=
  Located.drop (f := endBraced (cs.takeWhile Number.isHexDigit))
    (InLine.takeWhile Number.isHexDigit (forall_of_all (by decide)) cs) (endBraced_located _ _)

theorem readUnicodeEscape_located (cs : List Char) :
    Located cs fun p => readUnicodeEscape ⟨cs, p⟩ := by
  refine (readHexDigits_located 4 0 cs).bind fun code rest => ?_
  by_cases hpair : (0xD800 ≤ code ∧ code < 0xDC00) ∧ ∃ tail, rest = '\\' :: 'u' :: tail
  · obtain ⟨hhigh, tail, rfl⟩ := hpair
    simp only [decide_eq_true hhigh]
    refine .after ['\\', 'u'] ((readHexDigits_located 4 0 tail).bind fun low rest => ?_)
    by_cases hlow : 0xDC00 ≤ low ∧ low < 0xE000
    · simp only [if_pos hlow]
      exact .character _ fun c => [c]
    · simp only [if_neg hlow]
      exact .character _ fun c => ['\ufffd', c]
  · refine (Located.character code fun c => [c]).congr fun p => ?_
    dsimp only
    split
    · rename_i tail hhigh
      exact absurd ⟨of_decide_eq_true hhigh, tail, rfl⟩ hpair
    · rfl

/-- A carriage return is moved on over with the line feed after it. -/
theorem readEscape_located (cs : List Char) : Located cs fun p => readEscape ⟨cs, p⟩ := by
  cases cs with
  | nil => exact .fails _
  | cons c rest =>
      simp only [readEscape]
      split
      -- a zero, which the next character decides on
      case h_7 =>
          cases (rest.head?.map Char.isDigit).getD false with
          | true => exact .after ['0'] (.here _)
          | false => exact .after ['0'] (.here _)
      -- two digits
      case h_8 =>
          exact .after ['x'] ((readHexDigits_located 2 0 rest).bind fun code rest =>
            .character code fun c => [c])
      -- a code in braces, or four digits
      case h_9 =>
          split
          · rename_i rest
            exact .after ['u', '\x7b'] (readBracedEscape_located rest)
          · exact .after ['u'] (readUnicodeEscape_located rest)
      -- a carriage return, with a line feed after it
      case h_10 =>
          split
          · rename_i rest
            exact .after ['\r', '\n'] (.here _)
          · exact .after ['\r'] (.here _)
      all_goals exact .after [_] (.here _)

theorem readQuoted_located (quote : Char) (bound : Nat) (done cs : List Char) :
    Located cs fun p => readQuoted quote bound done ⟨cs, p⟩ := by
  induction bound generalizing done cs with
  | zero => exact .fails _
  | succ bound ih =>
      cases cs with
      | nil => exact .fails _
      | cons c rest =>
          simp only [readQuoted]
          by_cases hq : (c == quote) = true
          · simp only [if_pos hq]
            exact .after [c] (.here _)
          by_cases hn : (c == '\n' || c == '\r') = true
          · simp only [if_neg hq, if_pos hn]
            exact .after [c] (.fails _)
          by_cases hbs : (c == '\\') = true
          · simp only [if_neg hq, if_neg hn, if_pos hbs]
            have escaped := (readEscape_located rest).bind
              (g := fun r => readQuoted quote bound (r.1.reverse ++ done) r.2) fun characters rest =>
                ih (characters.reverse ++ done) rest
            refine (escaped.after [c]).congr fun p => ?_
            show _ = readEscape (Cursor.past ⟨c :: rest, p⟩ c rest) >>= _
            cases readEscape (Cursor.past ⟨c :: rest, p⟩ c rest) <;> rfl
          · simp only [if_neg hq, if_neg hn, if_neg hbs]
            exact .after [c] (ih (c :: done) rest)

theorem readString_located (quote : Char) (cs : List Char) :
    Located cs fun p => readString quote ⟨cs, p⟩ :=
  (readQuoted_located quote (cs.length + 1) [] cs).bind fun value _ => .here (TokenKind.string value)

/-! ### One token -/

theorem readToken_located (cs : List Char) : Located cs fun p => readToken ⟨cs, p⟩ := by
  cases cs with
  | nil => exact .here _
  | cons c rest =>
      simp only [readToken]
      split
      · exact readWord_located _
      split
      · exact readNumber_located _
      split
      · exact readNumber_located _
      split
      · exact .after [c] (readString_located c rest)
      · exact readSign_located _

/-! ### Between tokens -/

theorem skipGap_located (gap : Gap) (newline : Bool) (cs : List Char) :
    Located cs fun p => skipGap gap newline p cs := by
  induction gap, cs using gap_induction generalizing newline with
  | unterminated => exact .fails _
  | ended gap hgap =>
      simp only [skipGap_nil hgap]
      exact .here _
  | token c rest hline hblank hcomment =>
      simp only [skipGap_none hline hblank hcomment]
      exact .here _
  | step gap front rest inner hstep ih =>
      simp only [hstep.skipGap_eq]
      exact .after front (ih _)

/-! ### All tokens -/

/-- A token at its place in a text that begins at `p`. -/
def Token.StandsIn (t : Token) (p : Position) (cs : List Char) : Prop :=
  ∃ before rest next, cs = before ++ rest ∧ t.position = p.through before rest ∧
    readToken ⟨rest, t.position⟩ = .ok (t.kind, next)

theorem Token.StandsIn.after {t : Token} {p : Position} {before rest : List Char}
    (h : t.StandsIn (p.through before rest) rest) : t.StandsIn p (before ++ rest) := by
  obtain ⟨more, rest, next, rfl, hpos, hread⟩ := h
  exact ⟨before ++ more, rest, next, (List.append_assoc _ _ _).symm,
    by rw [hpos, Position.through_append], hread⟩

/-- Either each token from a place on stands where its position says, or what cannot be read stands
there. -/
theorem readTokens_located {bound : Nat} {cs : List Char} (hb : cs.length < bound) :
    (∀ done p, ∃ ts, readTokens bound done ⟨cs, p⟩ = .ok (done.reverse ++ ts) ∧
        ∀ t ∈ ts, t.StandsIn p cs) ∨
      ∃ cause before rest, cs = before ++ rest ∧
        ∀ done p, readTokens bound done ⟨cs, p⟩ = .error ⟨cause, p.through before rest⟩ := by
  induction bound generalizing cs with
  | zero => exact absurd hb (Nat.not_lt_zero _)
  | succ bound ih =>
      rcases skipGap_located .blanks false cs with
        ⟨newline, gap, text, rfl, hgap⟩ | ⟨cause, before, rest, rfl, hgap⟩
      · rcases readToken_located text with
          ⟨kind, before, rest, rfl, hread⟩ | ⟨cause, before, rest, rfl, hread⟩
        · rcases readToken_steady (hread .start) with ⟨rfl, hnil⟩ | ⟨hkind, -, -, hlen, -⟩
          · obtain ⟨rfl, rfl⟩ := List.append_eq_nil_iff.mp hnil
            refine .inl fun done p => ⟨[⟨.stop, p.through gap [], newline⟩], ?_, fun t ht => ?_⟩
            · simp only [List.append_nil] at hgap hread ⊢
              simp only [readTokens, hgap, hread, TokenKind.isStop, if_true, List.reverse_cons]
            · obtain rfl := List.mem_singleton.mp ht
              exact ⟨gap, [], _, rfl, rfl, hread _⟩
          · have hrest : rest.length < bound := by
              simp only [List.length_append] at hb hlen
              omega
            -- one round, whose token is added to those before it
            have step : ∀ done p, readTokens (bound + 1) done ⟨gap ++ (before ++ rest), p⟩ =
                readTokens bound (⟨kind, p.through gap (before ++ rest), newline⟩ :: done)
                  ⟨rest, p.through (gap ++ before) rest⟩ := fun done p => by
              simp only [readTokens, hgap, hread, hkind, Bool.false_eq_true, if_false,
                Position.through_append]
            rcases ih hrest with h | ⟨cause, more, rest, rfl, h⟩
            · refine .inl fun done p => ?_
              obtain ⟨ts, e, hts⟩ := h (⟨kind, p.through gap (before ++ rest), newline⟩ :: done)
                (p.through (gap ++ before) rest)
              refine ⟨⟨kind, p.through gap (before ++ rest), newline⟩ :: ts, ?_,
                List.forall_mem_cons.mpr ⟨?_, fun t ht => ?_⟩⟩
              · rw [step, e, List.reverse_cons, List.append_assoc]
                rfl
              · exact ⟨gap, before ++ rest, _, rfl, rfl, hread _⟩
              · rw [← List.append_assoc]
                exact (hts t ht).after
            · refine .inr ⟨cause, gap ++ before ++ more, rest, by simp, fun done p => ?_⟩
              exact (step done p).trans (by rw [h, ← Position.through_append])
        · refine .inr ⟨cause, gap ++ before, rest, (List.append_assoc _ _ _).symm, fun done p => ?_⟩
          simp only [readTokens, hgap, hread, Position.through_append]
      · refine .inr ⟨cause, before, rest, rfl, fun done p => ?_⟩
        simp only [readTokens, hgap]

/-- **Positions.**  Either each token of a text stands where its position says, or what cannot be read
stands there. -/
theorem tokens_located (source : String) :
    (∃ ts, tokens source = .ok ts ∧ ∀ t ∈ ts, t.StandsIn .start source.toList) ∨
      ∃ cause before rest, source.toList = before ++ rest ∧
        ∀ done p, readTokens (source.toList.length + 1) done ⟨source.toList, p⟩ =
          .error ⟨cause, p.through before rest⟩ := by
  rcases readTokens_located (Nat.lt_succ_self source.toList.length) with h | h
  · obtain ⟨ts, e, hts⟩ := h [] .start
    exact .inl ⟨ts, e, hts⟩
  · exact .inr h

end Stencil.Script
