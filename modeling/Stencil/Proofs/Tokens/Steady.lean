import Stencil.Proofs.Grammar.Formed
import Stencil.Proofs.Tokens.Gaps

/-!
# Tokens — reading in another place

What a reader makes of the front of a text does not depend on where the text stands, nor on a text
after it that begins with a parenthesis, a closing brace, a semicolon, a quote, a space or a line
feed: no token and no look ahead goes on into one.  `Steady f` says this of a reader `f`: what it leaves
is a suffix, and with such a text `x` after its own, at any other position, it gives the same and leaves
`x` too.

There are two exceptions.  A line feed belongs to a carriage return before it, which matters only at the
end of a string that is not closed; and a comment that goes to the end of its line takes in what comes
after (`skipGap_over`).
-/

namespace Stencil.Script
open Stencil.Text

/-- Characters that no token before them goes on into. -/
def apartChars : List Char := ['(', ')', '\x7d', ';', '\'', ' ', '\n']

/-- Texts that no token before them goes on into. -/
def Apart : List Char → Prop
  | [] => True
  | c :: _ => c ∈ apartChars

/-- **Readers that do not look past what they read.** -/
def Steady {α : Type} (f : Cursor → Except ParseError (α × Cursor)) : Prop :=
  ∀ cs p a next, f ⟨cs, p⟩ = .ok (a, next) → next.rest <:+ cs ∧
    ∀ x p', Apart x → ∃ q, f ⟨cs ++ x, p'⟩ = .ok (a, ⟨next.rest ++ x, q⟩)

/-- What holds of each character of a list, decided one by one. -/
theorem forall_of_all {l : List Char} {P : Char → Prop} [DecidablePred P]
    (h : l.all (fun c => decide (P c)) = true) : ∀ c ∈ l, P c :=
  fun c hc => of_decide_eq_true (List.all_eq_true.mp h c hc)

theorem except_bind_ok {ε α β : Type} {m : Except ε α} {f : α → Except ε β} {b : β}
    (h : (m >>= f) = .ok b) : ∃ a, m = .ok a ∧ f a = .ok b := by
  cases m with
  | error e => cases h
  | ok a => exact ⟨a, rfl, h⟩

theorem except_bind_error {ε α β : Type} {m : Except ε α} {f : α → Except ε β} {e : ε}
    (h : (m >>= f) = .error e) : m = .error e ∨ ∃ a, m = .ok a ∧ f a = .error e := by
  cases m with
  | error e' => exact .inl (congrArg Except.error (Except.error.inj h))
  | ok a => exact .inr ⟨a, rfl, h⟩

theorem except_bind_of_ok {ε α β : Type} {m : Except ε α} {a : α} (h : m = .ok a)
    (f : α → Except ε β) : (m >>= f) = f a := by
  rw [h]
  rfl

namespace Apart

variable {x : List Char}

theorem cons {c : Char} (h : c ∈ apartChars) : Apart (c :: x) := h

theorem cases (h : Apart x) : x = [] ∨ ∃ c ∈ apartChars, ∃ y, x = c :: y := by
  cases x with
  | nil => exact .inl rfl
  | cons c y => exact .inr ⟨c, h, y, rfl⟩

theorem takeWhile_append (h : Apart x) {p : Char → Bool} (hp : ∀ c ∈ apartChars, p c = false)
    (cs : List Char) : (cs ++ x).takeWhile p = cs.takeWhile p := by
  induction cs with
  | nil =>
      rcases h.cases with rfl | ⟨c, hc, y, rfl⟩
      · rfl
      · rw [List.nil_append, List.takeWhile_cons_of_neg (by simp [hp c hc]), List.takeWhile_nil]
  | cons c cs ih => simp only [List.cons_append, List.takeWhile_cons, ih]

theorem drop_append {p : Char → Bool} (cs : List Char) :
    (cs ++ x).drop (cs.takeWhile p).length = cs.drop (cs.takeWhile p).length ++ x :=
  List.drop_append_of_le_length (List.takeWhile_prefix p).length_le

theorem head_append (h : Apart x) {p : Char → Bool} (hp : ∀ c ∈ apartChars, p c = false)
    (cs : List Char) : ((cs ++ x).head?.map p).getD false = (cs.head?.map p).getD false := by
  cases cs with
  | nil =>
      rcases h.cases with rfl | ⟨c, hc, y, rfl⟩
      · rfl
      · exact hp c hc
  | cons c cs => rfl

/-- No such text begins with another character. -/
theorem first (h : Apart x) {c : Char} (hc : c ∉ apartChars) {l rest : List Char}
    (hcs : ∀ rest, l ≠ c :: rest) : l ++ x ≠ c :: rest := by
  intro heq
  cases l with
  | nil =>
      rcases h.cases with rfl | ⟨c', hc', y, rfl⟩
      · cases heq
      · cases heq; exact hc hc'
  | cons c' l => cases heq; exact hcs _ rfl

/-- Another character stands in front of such a text only where one stood already. -/
theorem exists_cons (h : Apart x) {c : Char} (hc : c ∉ apartChars) {l rest : List Char}
    (heq : l ++ x = c :: rest) : ∃ l', l = c :: l' ∧ rest = l' ++ x := by
  cases l with
  | nil => exact absurd heq (h.first (l := []) hc nofun)
  | cons d l' => cases heq; exact ⟨l', rfl, rfl⟩

/-- No such text begins or completes two other characters. -/
theorem pair (h : Apart x) {c₁ c₂ : Char} (h₁ : c₁ ∉ apartChars) (h₂ : c₂ ∉ apartChars)
    {cs rest : List Char} (hcs : ∀ rest, cs ≠ c₁ :: c₂ :: rest) : cs ++ x ≠ c₁ :: c₂ :: rest := by
  intro heq
  cases cs with
  | nil => exact h.first (l := []) h₁ nofun heq
  | cons c cs =>
      obtain ⟨rfl, htail⟩ := List.cons.inj heq
      exact h.first h₂ (fun rest hr => hcs rest (congrArg (c :: ·) hr)) htail

end Apart

/-! ### Words and numerals -/

theorem readWord_append (cs : List Char) {x : List Char} (p p' : Position) (hx : Apart x) :
    ∃ q, readWord ⟨cs ++ x, p'⟩ = ((readWord ⟨cs, p⟩).1, ⟨(readWord ⟨cs, p⟩).2.rest ++ x, q⟩) := by
  have hword : (cs ++ x).takeWhile isNamePart = cs.takeWhile isNamePart :=
    hx.takeWhile_append (forall_of_all (by decide)) cs
  simp only [readWord, Cursor.drop, hword, Apart.drop_append]
  exact ⟨_, rfl⟩

theorem withDigits_append {x : List Char} (hx : Apart x) (before cs : List Char) :
    withDigits before (cs ++ x) = withDigits before cs := by
  simp only [withDigits, hx.takeWhile_append (p := Char.isDigit) (forall_of_all (by decide))]

theorem exponentPart_append {x : List Char} (hx : Apart x) (cs : List Char) :
    exponentPart (cs ++ x) = exponentPart cs := by
  match cs with
  | [] =>
      rcases hx.cases with rfl | ⟨c, hc, y, rfl⟩
      · rfl
      · have hmark : (c == 'e' || c == 'E') = false :=
          (show ∀ c ∈ apartChars, (c == 'e' || c == 'E') = false from forall_of_all (by decide)) c hc
        simp only [List.nil_append, exponentPart, hmark, Bool.false_eq_true, if_false]
  | mark :: rest =>
      simp only [exponentPart, List.cons_append]
      split
      · split
        · rename_i digits heq
          obtain ⟨digits', rfl, rfl⟩ := hx.exists_cons (by decide) heq
          exact withDigits_append hx _ _
        · rename_i digits heq
          obtain ⟨digits', rfl, rfl⟩ := hx.exists_cons (by decide) heq
          exact withDigits_append hx _ _
        · rename_i hplus hminus
          split
          · exact absurd rfl (hplus _)
          · exact absurd rfl (hminus _)
          · exact withDigits_append hx _ _
      · rfl

theorem numeralPart_append {x : List Char} (hx : Apart x) (cs : List Char) :
    numeralPart (cs ++ x) = numeralPart cs := by
  have hdigits : ∀ cs : List Char, (cs ++ x).takeWhile Char.isDigit = cs.takeWhile Char.isDigit :=
    hx.takeWhile_append (forall_of_all (by decide))
  simp only [numeralPart, hdigits, Apart.drop_append]
  generalize cs.drop (cs.takeWhile Char.isDigit).length = rest
  by_cases hdot : ∃ tail, rest = '.' :: tail
  · obtain ⟨tail, rfl⟩ := hdot
    simp only [List.cons_append, hdigits, Apart.drop_append, exponentPart_append hx]
  · have hrest : ∀ tail, rest ≠ '.' :: tail := fun tail h => hdot ⟨tail, h⟩
    split
    · rename_i tail heq
      exact absurd heq (hx.first (by decide) hrest)
    · rw [exponentPart_append hx]

theorem readHexadecimal_steady : Steady readHexadecimal := by
  intro cs p a next e
  simp only [readHexadecimal, Cursor.drop] at e
  cases hv : Number.value? 16 (cs.takeWhile Number.isHexDigit) with
  | none => rw [hv] at e; cases e
  | some n =>
      simp only [hv] at e
      split at e
      · rename_i hn
        cases e
        refine ⟨List.drop_suffix _ _, fun x p' hx => ?_⟩
        simp only [readHexadecimal, Cursor.drop, Apart.drop_append, hv, hn, if_true,
          hx.takeWhile_append (p := Number.isHexDigit) (forall_of_all (by decide))]
        exact ⟨_, rfl⟩
      · cases e

theorem length_withDigits (before cs : List Char) :
    (withDigits before cs).length ≤ before.length + cs.length := by
  have h := (List.takeWhile_prefix (l := cs) Char.isDigit).length_le
  simp only [withDigits]
  split
  · exact Nat.zero_le _
  · rw [List.length_append]
    omega

theorem length_exponentPart (cs : List Char) : (exponentPart cs).length ≤ cs.length := by
  match cs with
  | [] => exact Nat.le_refl _
  | mark :: rest =>
      simp only [exponentPart]
      split
      · split
        · rename_i digits
          have := length_withDigits [mark, '+'] digits
          simp only [List.length_cons, List.length_nil] at this ⊢
          omega
        · rename_i digits
          have := length_withDigits [mark, '-'] digits
          simp only [List.length_cons, List.length_nil] at this ⊢
          omega
        · have := length_withDigits [mark] rest
          simp only [List.length_cons, List.length_nil] at this ⊢
          omega
      · exact Nat.zero_le _

theorem length_numeralPart (cs : List Char) : (numeralPart cs).length ≤ cs.length := by
  have hbefore := (List.takeWhile_prefix (l := cs) Char.isDigit).length_le
  have hrest := @List.length_drop _ (cs.takeWhile Char.isDigit).length cs
  simp only [numeralPart]
  split
  · rename_i tail heq
    have hafter := (List.takeWhile_prefix (l := tail) Char.isDigit).length_le
    have hexp := length_exponentPart (tail.drop (tail.takeWhile Char.isDigit).length)
    rw [heq] at hrest
    simp only [List.length_append, List.length_cons, List.length_drop] at hexp hrest ⊢
    omega
  · have hexp := length_exponentPart (cs.drop (cs.takeWhile Char.isDigit).length)
    rw [List.length_append]
    omega

theorem drop_numeralPart_append {x : List Char} (cs : List Char) :
    (cs ++ x).drop (numeralPart cs).length = cs.drop (numeralPart cs).length ++ x :=
  List.drop_append_of_le_length (length_numeralPart cs)

theorem readDecimal_steady : Steady readDecimal := by
  intro cs p a next e
  simp only [readDecimal, Cursor.drop] at e
  cases hname : ((cs.drop (numeralPart cs).length).head?.map isNameStart).getD false with
  | true => simp only [hname, if_true] at e; cases e
  | false =>
      simp only [hname, Bool.false_eq_true, if_false] at e
      split at e
      · rename_i value hv
        cases e
        refine ⟨List.drop_suffix _ _, fun x p' hx => ?_⟩
        simp only [readDecimal, Cursor.drop, numeralPart_append hx, drop_numeralPart_append, hv,
          hx.head_append (p := isNameStart) (forall_of_all (by decide)), hname, Bool.false_eq_true,
          if_false]
        exact ⟨_, rfl⟩
      · cases e

theorem readNumber_steady : Steady readNumber := by
  intro cs p a next e
  simp only [readNumber] at e
  split at e
  · obtain ⟨hs, hx⟩ := readHexadecimal_steady _ _ _ _ e
    exact ⟨hs.trans ((List.suffix_cons _ _).trans (List.suffix_cons _ _)),
      fun x p' hc => hx x _ hc⟩
  · obtain ⟨hs, hx⟩ := readHexadecimal_steady _ _ _ _ e
    exact ⟨hs.trans ((List.suffix_cons _ _).trans (List.suffix_cons _ _)),
      fun x p' hc => hx x _ hc⟩
  · rename_i hlower hupper
    obtain ⟨hs, hx⟩ := readDecimal_steady _ _ _ _ e
    refine ⟨hs, fun x p' hc => ?_⟩
    obtain ⟨q, hq⟩ := hx x p' hc
    refine ⟨q, hq ▸ ?_⟩
    simp only [readNumber]
    split
    · rename_i h
      exact absurd h (hc.pair (by decide) (by decide) hlower)
    · rename_i h
      exact absurd h (hc.pair (by decide) (by decide) hupper)
    · rfl

/-! ### Strings -/

theorem characterOf_elsewhere {code : Nat} {p : Position} {c : Char}
    (h : characterOf code p = .ok c) (p' : Position) : characterOf code p' = .ok c := by
  simp only [characterOf] at h ⊢
  by_cases hc : 0x10FFFF < code
  · rw [if_pos hc] at h
    cases h
  · rw [if_neg hc] at h ⊢
    exact h

theorem readHexDigits_steady : ∀ count code, Steady (readHexDigits count code)
  | 0, code => by
      intro cs p a next e
      cases e
      exact ⟨List.suffix_refl _, fun x p' _ => ⟨p', rfl⟩⟩
  | count + 1, code => by
      intro cs p a next e
      cases cs with
      | nil => cases e
      | cons c rest =>
          simp only [readHexDigits] at e
          cases hd : Number.digitValue? 16 c with
          | none => rw [hd] at e; cases e
          | some digit =>
              rw [hd] at e
              obtain ⟨hs, hx⟩ := readHexDigits_steady count _ _ _ _ _ e
              refine ⟨hs.trans (List.suffix_cons c rest), fun x p' hclose => ?_⟩
              simp only [List.cons_append, readHexDigits, hd]
              exact hx x _ hclose

theorem readBracedEscape_steady : Steady readBracedEscape := by
  intro cs p a next e
  simp only [readBracedEscape, Cursor.drop] at e
  cases hempty : (cs.takeWhile Number.isHexDigit).isEmpty with
  | true => rw [hempty] at e; cases e
  | false =>
      rw [hempty] at e
      cases hrest : cs.drop (cs.takeWhile Number.isHexDigit).length with
      | nil => rw [hrest] at e; cases e
      | cons c rest =>
          rw [hrest] at e
          simp only [Bool.false_eq_true, if_false] at e
          split at e
          · rename_i hc
            obtain ⟨character, hch, hr⟩ := except_bind_ok e
            cases hr
            refine ⟨?_, fun x p' hx => ?_⟩
            · have hs := List.drop_suffix (cs.takeWhile Number.isHexDigit).length cs
              rw [hrest] at hs
              exact (List.suffix_cons c rest).trans hs
            · simp only [readBracedEscape, Cursor.drop, Apart.drop_append, hrest, hempty,
                hx.takeWhile_append (p := Number.isHexDigit) (forall_of_all (by decide)),
                Bool.false_eq_true, if_false, List.cons_append, hc, if_true, characterOf_elsewhere hch]
              exact ⟨_, rfl⟩
          · cases e

theorem characterOf_bind {code : Nat} {p : Position} {f : Char → List Char} {cursor next : Cursor}
    {a : List Char} (h : (characterOf code p >>= fun c => pure (f c, cursor)) = .ok (a, next)) :
    next = cursor ∧ ∀ (p' : Position) (cursor' : Cursor),
      (characterOf code p' >>= fun c => pure (f c, cursor')) = .ok (a, cursor') := by
  obtain ⟨c, hc, hr⟩ := except_bind_ok h
  cases hr
  exact ⟨rfl, fun p' cursor' => except_bind_of_ok (characterOf_elsewhere hc p') _⟩

/-- What two escapes for the halves of a surrogate pair stand for: one character, or two if the second
is not the lower half. -/
def halves (code low : Nat) (cursor : Cursor) : Except ParseError (List Char × Cursor) :=
  if 0xDC00 ≤ low ∧ low < 0xE000 then do
    let character ← characterOf (0x10000 + (code - 0xD800) * 0x400 + (low - 0xDC00)) cursor.position
    pure ([character], cursor)
  else do
    let character ← characterOf low cursor.position
    pure (['\ufffd', character], cursor)

theorem halves_elsewhere {code low : Nat} {cursor next : Cursor} {a : List Char}
    (h : halves code low cursor = .ok (a, next)) :
    next = cursor ∧ ∀ q, halves code low q = .ok (a, q) := by
  simp only [halves] at h ⊢
  by_cases hl : 0xDC00 ≤ low ∧ low < 0xE000
  · simp only [if_pos hl] at h ⊢
    obtain ⟨rfl, hchar⟩ := characterOf_bind (f := fun c => [c]) h
    exact ⟨rfl, fun q => hchar _ _⟩
  · simp only [if_neg hl] at h ⊢
    obtain ⟨rfl, hchar⟩ := characterOf_bind (f := fun c => ['\ufffd', c]) h
    exact ⟨rfl, fun q => hchar _ _⟩

theorem readUnicodeEscape_steady : Steady readUnicodeEscape := by
  intro cs p a next e
  obtain ⟨⟨code, mid⟩, e₁, e₂⟩ := except_bind_ok e
  obtain ⟨hs, hx⟩ := readHexDigits_steady _ _ _ _ _ _ e₁
  obtain ⟨rest, pos⟩ := mid
  dsimp only at e₂ hs hx
  split at e₂
  · rename_i tail hhigh
    obtain ⟨⟨low, after⟩, e₃, e₄⟩ := except_bind_ok e₂
    obtain ⟨hs', hx'⟩ := readHexDigits_steady _ _ _ _ _ _ e₃
    have hsuffix : after.rest <:+ cs :=
      hs'.trans (((List.suffix_cons _ _).trans (List.suffix_cons _ _)).trans hs)
    obtain ⟨rfl, hlow⟩ := halves_elsewhere e₄
    refine ⟨hsuffix, fun x p' hc => ?_⟩
    obtain ⟨q, hq⟩ := hx x p' hc
    obtain ⟨q', hq'⟩ := hx' x (q.along 2) hc
    refine ⟨q', (except_bind_of_ok hq _).trans ?_⟩
    -- the lower half is read where it was, so the two join to the same character
    simp only [hhigh, List.cons_append]
    exact (except_bind_of_ok hq' _).trans (hlow _)
  · rename_i hnot
    obtain ⟨rfl, hchar⟩ := characterOf_bind (f := fun c => [c]) e₂
    refine ⟨hs, fun x p' hc => ?_⟩
    obtain ⟨q, hq⟩ := hx x p' hc
    refine ⟨q, (except_bind_of_ok hq _).trans ?_⟩
    dsimp only
    split
    · rename_i tail hhigh heq
      exact absurd heq (hc.pair (by decide) (by decide) fun rest hr => hnot rest hhigh hr)
    · exact hchar _ _

/-- An escape that is a carriage return would take in a line feed after it. -/
theorem readEscape_steady {cs : List Char} {p : Position} {a : List Char} {next : Cursor}
    (e : readEscape ⟨cs, p⟩ = .ok (a, next)) : next.rest <:+ cs ∧ (next.rest ≠ [] →
      ∀ x p', Apart x → ∃ q, readEscape ⟨cs ++ x, p'⟩ = .ok (a, ⟨next.rest ++ x, q⟩)) := by
  cases cs with
  | nil => cases e
  | cons c rest =>
      have hs := List.suffix_cons c rest
      simp only [readEscape] at e
      split at e
      -- a zero, which the next character decides on
      case h_7 =>
          refine ⟨?_, fun _ x p' hc => ?_⟩
          · split at e <;> cases e <;> exact hs
          · have hd := hc.head_append (p := Char.isDigit) (forall_of_all (by decide)) rest
            simp only [List.cons_append, readEscape, hd]
            split at e
            · rename_i h
              cases e
              exact ⟨_, if_pos h⟩
            · rename_i h
              cases e
              exact ⟨_, if_neg h⟩
      -- two digits
      case h_8 =>
          obtain ⟨⟨code, mid⟩, e₁, e₂⟩ := except_bind_ok e
          obtain ⟨hs', hx⟩ := readHexDigits_steady _ _ _ _ _ _ e₁
          obtain ⟨rfl, hchar⟩ := characterOf_bind (f := fun c => [c]) e₂
          refine ⟨hs'.trans hs, fun _ x p' hc => ?_⟩
          obtain ⟨q, hq⟩ := hx x _ hc
          exact ⟨q, (except_bind_of_ok hq _).trans (hchar _ _)⟩
      -- a code in braces, or four digits
      case h_9 =>
          split at e
          · obtain ⟨hs', hx⟩ := readBracedEscape_steady _ _ _ _ e
            exact ⟨hs'.trans ((List.suffix_cons _ _).trans hs), fun _ x p' hc => hx x _ hc⟩
          · rename_i hbrace
            obtain ⟨hs', hx⟩ := readUnicodeEscape_steady _ _ _ _ e
            refine ⟨hs'.trans hs, fun _ x p' hc => ?_⟩
            simp only [List.cons_append, readEscape]
            split
            · rename_i tail heq
              exact absurd heq (hc.first (by decide) hbrace)
            · exact hx x _ hc
      -- a carriage return, with a line feed after it
      case h_10 =>
          split at e
          · cases e
            exact ⟨(List.suffix_cons _ _).trans hs, fun _ x p' _ => ⟨_, rfl⟩⟩
          · rename_i hnewline
            cases e
            refine ⟨hs, fun hne x p' hc => ⟨Position.after p' '\r' (rest ++ x), ?_⟩⟩
            simp only [List.cons_append, readEscape]
            split
            · rename_i tail heq
              obtain ⟨d, rest, rfl⟩ := List.exists_cons_of_ne_nil hne
              cases heq
              exact absurd rfl (hnewline rest)
            · rfl
      -- any other character, which stands for itself
      case h_14 =>
          cases e
          refine ⟨hs, fun _ x p' _ => ⟨p'.after c (rest ++ x), ?_⟩⟩
          simp only [List.cons_append, readEscape]
          rfl
      all_goals
        cases e
        exact ⟨hs, fun _ x p' _ => ⟨_, rfl⟩⟩

/-- **A string up to its closing quote**, step by step: the quote ends it, a backslash begins an
escape, and any other character that does not end the line stands for itself. -/
inductive Unquotes (quote : Char) : List Char → Cursor → String → Cursor → Prop where
  | quote {done rest : List Char} {p : Position} :
      Unquotes quote done ⟨quote :: rest, p⟩ (String.ofList done.reverse) ⟨rest, p.after quote rest⟩
  | escape {done rest characters : List Char} {p : Position} {mid after : Cursor} {value : String}
      (hq : '\\' ≠ quote)
      (hread : readEscape ⟨rest, p.after '\\' rest⟩ = .ok (characters, mid))
      (more : Unquotes quote (characters.reverse ++ done) mid value after) :
      Unquotes quote done ⟨'\\' :: rest, p⟩ value after
  | plain {c : Char} {done rest : List Char} {p : Position} {after : Cursor} {value : String}
      (hq : c ≠ quote) (hc : c ≠ '\n' ∧ c ≠ '\r' ∧ c ≠ '\\')
      (more : Unquotes quote (c :: done) ⟨rest, p.after c rest⟩ value after) :
      Unquotes quote done ⟨c :: rest, p⟩ value after

theorem unquotes_of_readQuoted {quote : Char} {bound : Nat} {done : List Char} {cursor after : Cursor}
    {value : String} (e : readQuoted quote bound done cursor = .ok (value, after)) :
    Unquotes quote done cursor value after := by
  induction bound generalizing done cursor with
  | zero => cases e
  | succ bound ih =>
      obtain ⟨_ | ⟨c, rest⟩, p⟩ := cursor
      · cases e
      simp only [readQuoted] at e
      by_cases hq : (c == quote) = true
      · rw [if_pos hq] at e
        obtain rfl := beq_iff_eq.mp hq
        cases e
        exact .quote
      rw [if_neg hq] at e
      rw [beq_iff_eq] at hq
      by_cases hn : (c == '\n' || c == '\r') = true
      · rw [if_pos hn] at e
        cases e
      rw [if_neg hn] at e
      rw [Bool.or_eq_true, beq_iff_eq, beq_iff_eq, not_or] at hn
      by_cases hbs : (c == '\\') = true
      · rw [if_pos hbs] at e
        obtain rfl := beq_iff_eq.mp hbs
        split at e
        · rename_i characters mid hread
          exact .escape hq hread (ih e)
        · cases e
      · rw [if_neg hbs] at e
        rw [beq_iff_eq] at hbs
        exact .plain hq ⟨hn.1, hn.2, hbs⟩ (ih e)

namespace Unquotes

variable {quote : Char} {done : List Char} {cursor after : Cursor} {value : String}
  (h : Unquotes quote done cursor value after)
include h

theorem ne_nil : cursor.rest ≠ [] := by
  cases h <;> exact List.cons_ne_nil _ _

/-- A bound above the length of the text is enough, for each step passes a character. -/
theorem readQuoted {bound : Nat} (hb : cursor.rest.length < bound) :
    readQuoted quote bound done cursor = .ok (value, after) := by
  induction h generalizing bound with
  | quote =>
      obtain ⟨bound, rfl⟩ := Nat.exists_eq_succ_of_ne_zero (Nat.ne_zero_of_lt hb)
      exact if_pos (beq_self_eq_true quote)
  | escape hq hread _ ih =>
      obtain ⟨bound, rfl⟩ := Nat.exists_eq_succ_of_ne_zero (Nat.ne_zero_of_lt hb)
      have hshort := (readEscape_steady hread).1.length_le
      rw [List.length_cons] at hb
      simp only [Script.readQuoted, Cursor.past, beq_eq_false_iff_ne.mpr hq, hread]
      exact ih (by omega)
  | plain hq hc _ ih =>
      obtain ⟨bound, rfl⟩ := Nat.exists_eq_succ_of_ne_zero (Nat.ne_zero_of_lt hb)
      simp only [Script.readQuoted, Cursor.past, beq_eq_false_iff_ne.mpr hq,
        beq_eq_false_iff_ne.mpr hc.1, beq_eq_false_iff_ne.mpr hc.2.1, beq_eq_false_iff_ne.mpr hc.2.2]
      exact ih (Nat.lt_of_succ_lt_succ hb)

theorem steady : after.rest <:+ cursor.rest ∧ ∀ x p, Apart x →
    ∃ q, Unquotes quote done ⟨cursor.rest ++ x, p⟩ value ⟨after.rest ++ x, q⟩ := by
  induction h with
  | quote => exact ⟨List.suffix_cons _ _, fun x p _ => ⟨_, .quote⟩⟩
  | escape hq hread more ih =>
      obtain ⟨hs, hx⟩ := readEscape_steady hread
      obtain ⟨hs', hx'⟩ := ih
      refine ⟨hs'.trans (hs.trans (List.suffix_cons _ _)), fun x p hc => ?_⟩
      -- the string is closed, so that more than the escape is left
      obtain ⟨q, hread'⟩ := hx more.ne_nil x _ hc
      obtain ⟨q', more'⟩ := hx' x q hc
      exact ⟨q', .escape hq hread' more'⟩
  | plain hq hc _ ih =>
      obtain ⟨hs, hx⟩ := ih
      refine ⟨hs.trans (List.suffix_cons _ _), fun x p hx' => ?_⟩
      obtain ⟨q, more⟩ := hx x _ hx'
      exact ⟨q, .plain hq hc more⟩

end Unquotes

theorem readString_steady (quote : Char) : Steady (readString quote) := by
  intro cs p a next e
  obtain ⟨⟨value, cursor⟩, e₁, e₂⟩ := except_bind_ok e
  cases e₂
  obtain ⟨hs, hx⟩ := (unquotes_of_readQuoted e₁).steady
  refine ⟨hs, fun x p' hc => ?_⟩
  obtain ⟨q, unquotes⟩ := hx x p' hc
  exact ⟨q, except_bind_of_ok (unquotes.readQuoted (Nat.lt_succ_self _)) _⟩

/-! ### Signs and all tokens -/

theorem isPrefixOf_append {x : List Char} (hx : Apart x) {l : List Char}
    (hl : ∀ d ∈ l, d ∉ apartChars) (cs : List Char) :
    l.isPrefixOf (cs ++ x) = l.isPrefixOf cs := by
  induction l generalizing cs with
  | nil => rw [List.isPrefixOf_nil_left, List.isPrefixOf_nil_left]
  | cons d l ih =>
      cases cs with
      | nil =>
          rcases hx.cases with rfl | ⟨c, hc, y, rfl⟩
          · rfl
          · have hne : d ≠ c := fun h => hl d List.mem_cons_self (h ▸ hc)
            simp [List.isPrefixOf, hne]
      | cons c cs =>
          simp only [List.cons_append, List.isPrefixOf_cons_cons]
          rw [ih (fun d hd => hl d (List.mem_cons_of_mem _ hd))]

/-- No sign goes on into a character that stands apart. -/
theorem Punctuator.spelling_eq_cons (sign : Punctuator) : ∃ c l, sign.spelling.toList = c :: l ∧
    ∀ d ∈ l, d ∉ apartChars := by
  cases sign <;> exact ⟨_, _, rfl, forall_of_all (by decide)⟩

theorem isPrefixOf_spelling {x : List Char} (hx : Apart x) (sign : Punctuator) (c : Char)
    (cs : List Char) :
    sign.spelling.toList.isPrefixOf (c :: cs ++ x) = sign.spelling.toList.isPrefixOf (c :: cs) := by
  obtain ⟨first, l, hs, hl⟩ := sign.spelling_eq_cons
  rw [hs, List.cons_append, List.isPrefixOf_cons_cons, List.isPrefixOf_cons_cons, isPrefixOf_append hx hl]

theorem readSign_steady {c : Char} {cs : List Char} {p : Position} {a : TokenKind} {next : Cursor}
    (e : readSign ⟨c :: cs, p⟩ = .ok (a, next)) :
    (∃ sign, a = .sign sign) ∧ next.rest <:+ cs ∧ ∀ x p', Apart x →
      ∃ q, readSign ⟨c :: cs ++ x, p'⟩ = .ok (a, ⟨next.rest ++ x, q⟩) := by
  simp only [readSign] at e
  split at e
  · rename_i sign hfind
    cases e
    obtain ⟨first, l, hs, -⟩ := sign.spelling_eq_cons
    have hlen : sign.spelling.length = l.length + 1 := by
      rw [← String.length_toList, hs, List.length_cons]
    have hspelled : sign.spelling.toList <+: c :: cs := by
      have h := List.find?_some hfind
      exact List.isPrefixOf_iff_prefix.mp h
    refine ⟨⟨sign, rfl⟩, ?_, fun x p' hx =>
      ⟨p'.along sign.spelling.length, ?_⟩⟩
    · simp only [Cursor.drop, hlen, List.drop_succ_cons]
      exact List.drop_suffix _ _
    · simp only [readSign, isPrefixOf_spelling hx, hfind, Cursor.drop]
      rw [List.drop_append_of_le_length]
      rw [← String.length_toList]
      exact hspelled.length_le
  · cases e

/-! ### One token -/

theorem readWord_passes {c : Char} (rest : List Char) (p : Position) (h : isNameStart c = true) :
    (readWord ⟨c :: rest, p⟩).1.isStop = false ∧ (readWord ⟨c :: rest, p⟩).1.Sound ∧
      (readWord ⟨c :: rest, p⟩).2.rest <:+ rest := by
  have hc : isNamePart c = true := by
    simp only [isNameStart, isNamePart, Bool.or_eq_true] at h ⊢
    exact .inl h
  have hword : (c :: rest).takeWhile isNamePart = c :: rest.takeWhile isNamePart :=
    List.takeWhile_cons_of_pos hc
  simp only [readWord, hword, Cursor.drop, List.length_cons, List.drop_succ_cons]
  refine ⟨?_, ?_, List.drop_suffix _ _⟩
  · cases Keyword.ofSpelling? (String.ofList (c :: rest.takeWhile isNamePart)) <;> rfl
  · cases hk : Keyword.ofSpelling? (String.ofList (c :: rest.takeWhile isNamePart)) with
    | some keyword => trivial
    | none =>
        show isName _ = true
        simp only [isName, String.toList_ofList, h, hk, Option.isNone_none, Bool.and_true,
          List.all_takeWhile]

theorem numeralPart_pos {c : Char} (rest : List Char) (h : c.isDigit = true ∨ c = '.') :
    0 < (numeralPart (c :: rest)).length := by
  by_cases hd : c.isDigit = true
  · simp only [numeralPart, List.takeWhile_cons_of_pos hd]
    split <;> simp
  · obtain rfl := h.resolve_left hd
    simp only [numeralPart, List.takeWhile_cons_of_neg hd]
    simp

theorem readNumber_passes {c : Char} {rest : List Char} {p : Position} {kind : TokenKind}
    {next : Cursor} (h : c.isDigit = true ∨ c = '.')
    (e : readNumber ⟨c :: rest, p⟩ = .ok (kind, next)) :
    (∃ value, kind = .number value) ∧ next.rest.length < (c :: rest).length := by
  have hex : ∀ {cs p}, readHexadecimal ⟨cs, p⟩ = .ok (kind, next) →
      (∃ value, kind = .number value) ∧ next.rest.length ≤ cs.length := by
    intro cs p e
    refine ⟨?_, (readHexadecimal_steady _ _ _ _ e).1.length_le⟩
    simp only [readHexadecimal] at e
    split at e
    · split at e
      · cases e; exact ⟨_, rfl⟩
      · cases e
    · cases e
  simp only [readNumber] at e
  split at e
  · obtain ⟨hk, hl⟩ := hex e
    exact ⟨hk, by simp only [List.length_drop, List.length_cons] at hl ⊢; omega⟩
  · obtain ⟨hk, hl⟩ := hex e
    exact ⟨hk, by simp only [List.length_drop, List.length_cons] at hl ⊢; omega⟩
  · have hpos := numeralPart_pos rest h
    have hle := length_numeralPart (c :: rest)
    simp only [readDecimal, Cursor.drop] at e
    cases hname : (((c :: rest).drop (numeralPart (c :: rest)).length).head?.map
        isNameStart).getD false with
    | true => simp only [hname, if_true] at e; cases e
    | false =>
        simp only [hname, Bool.false_eq_true, if_false] at e
        split at e
        · cases e
          refine ⟨⟨_, rfl⟩, ?_⟩
          rw [List.length_drop]
          omega
        · cases e

theorem readString_kind {quote : Char} {cursor next : Cursor} {kind : TokenKind}
    (e : readString quote cursor = .ok (kind, next)) : ∃ value, kind = .string value := by
  obtain ⟨⟨value, after⟩, -, e₂⟩ := except_bind_ok e
  cases e₂
  exact ⟨value, rfl⟩

/-- **One token.**  The end is read where no text is left, and only there; any other token passes
a character. -/
theorem readToken_steady {cs : List Char} {p : Position} {kind : TokenKind} {next : Cursor}
    (e : readToken ⟨cs, p⟩ = .ok (kind, next)) :
    (kind = .stop ∧ cs = []) ∨
      (kind.isStop = false ∧ kind.Sound ∧ next.rest <:+ cs ∧ next.rest.length < cs.length ∧
        ∀ x p', Apart x → ∃ q, readToken ⟨cs ++ x, p'⟩ = .ok (kind, ⟨next.rest ++ x, q⟩)) := by
  cases cs with
  | nil => cases e; exact .inl ⟨rfl, rfl⟩
  | cons c rest =>
      right
      have hs := List.suffix_cons c rest
      have hl : ∀ {l : List Char}, l <:+ rest → l.length < (c :: rest).length := fun h =>
        Nat.lt_succ_of_le h.length_le
      simp only [readToken] at e
      simp only [List.cons_append, readToken]
      by_cases hname : isNameStart c = true
      · simp only [if_pos hname] at e ⊢
        have hw := readWord_passes rest p hname
        obtain ⟨hstop, hsound, hr⟩ := (Except.ok.inj e) ▸ hw
        refine ⟨hstop, hsound, hr.trans hs, hl hr, fun x p' hx => ?_⟩
        obtain ⟨q, hq⟩ := readWord_append (c :: rest) p p' hx
        rw [Except.ok.inj e] at hq
        exact ⟨q, congrArg Except.ok hq⟩
      simp only [if_neg hname] at e ⊢
      have number : (c.isDigit = true ∨ c = '.') → readNumber ⟨c :: rest, p⟩ = .ok (kind, next) →
          kind.isStop = false ∧ kind.Sound ∧ next.rest <:+ c :: rest ∧
            next.rest.length < (c :: rest).length ∧ ∀ x p', Apart x →
              ∃ q, readNumber ⟨c :: (rest ++ x), p'⟩ = .ok (kind, ⟨next.rest ++ x, q⟩) := by
        intro hc e
        obtain ⟨⟨value, rfl⟩, hlen⟩ := readNumber_passes hc e
        obtain ⟨hs', hx⟩ := readNumber_steady _ _ _ _ e
        exact ⟨rfl, trivial, hs', hlen, hx⟩
      by_cases hdigit : c.isDigit = true
      · simp only [if_pos hdigit] at e ⊢
        exact number (.inl hdigit) e
      simp only [if_neg hdigit] at e ⊢
      by_cases hdot : (c == '.' && (rest.head?.map Char.isDigit).getD false) = true
      · simp only [if_pos hdot] at e
        have hc : c = '.' := by
          rw [Bool.and_eq_true] at hdot
          exact beq_iff_eq.mp hdot.1
        obtain ⟨hstop, hsound, hs', hlen, hx⟩ := number (.inr hc) e
        refine ⟨hstop, hsound, hs', hlen, fun x p' hclose => ?_⟩
        rw [hclose.head_append (p := Char.isDigit) (forall_of_all (by decide)), if_pos hdot]
        exact hx x p' hclose
      simp only [if_neg hdot] at e
      by_cases hquote : (c == '\'' || c == '"') = true
      · simp only [if_pos hquote] at e
        obtain ⟨value, rfl⟩ := readString_kind e
        obtain ⟨hs', hx⟩ := readString_steady c _ _ _ _ e
        refine ⟨rfl, trivial, hs'.trans hs, hl hs', fun x p' hclose => ?_⟩
        rw [hclose.head_append (p := Char.isDigit) (forall_of_all (by decide)), if_neg hdot, if_pos hquote]
        exact hx x _ hclose
      · simp only [if_neg hquote] at e
        obtain ⟨⟨sign, rfl⟩, hs', hx⟩ := readSign_steady e
        refine ⟨rfl, trivial, hs'.trans hs, hl hs', fun x p' hclose => ?_⟩
        rw [hclose.head_append (p := Char.isDigit) (forall_of_all (by decide)), if_neg hdot, if_neg hquote]
        exact hx x p' hclose

/-! ### Between tokens -/

/-- No step sees a character that stands apart. -/
theorem GapStep.append {gap after : Gap} {front rest x : List Char}
    (h : GapStep gap front rest after) (hx : Apart x) : GapStep gap front (rest ++ x) after := by
  cases h with
  | line => exact .line (rest ++ x)
  | block => exact .block (rest ++ x)
  | lineEnd hc => exact .lineEnd hc (rest ++ x)
  | blank hc hb => exact .blank hc hb (rest ++ x)
  | endOfComment hc => exact .endOfComment hc (rest ++ x)
  | inComment hc => exact .inComment hc (rest ++ x)
  | endOfBlock => exact .endOfBlock (rest ++ x)
  | inBlock hc =>
      exact .inBlock fun r h₁ h₂ => hx.first (by decide) (fun r' hr => hc r' h₁ hr) h₂

/-- **One gap** before a token. -/
theorem skipGap_steady {gap : Gap} {newline after : Bool} {p : Position} {cs : List Char}
    {next : Cursor} (e : skipGap gap newline p cs = .ok (after, next)) :
    next.rest <:+ cs ∧ ∀ x p', Apart x → x = [] ∨ next.rest ≠ [] →
      ∃ q, skipGap gap newline p' (cs ++ x) = .ok (after, ⟨next.rest ++ x, q⟩) := by
  induction gap, cs using gap_induction generalizing newline p with
  | unterminated => cases e
  | ended gap hgap =>
      rw [skipGap_nil hgap] at e
      cases e
      refine ⟨List.suffix_refl _, fun x p' hx hend => ?_⟩
      rcases hend with rfl | hrest
      · exact ⟨p', skipGap_nil hgap _ p'⟩
      · exact absurd rfl hrest
  | token c rest hline hblank hcomment =>
      rw [skipGap_none hline hblank hcomment] at e
      cases e
      refine ⟨List.suffix_refl _, fun x p' hx _ => ⟨p', ?_⟩⟩
      exact skipGap_none hline hblank (fun r =>
        ⟨hx.pair (by decide) (by decide) fun r => (hcomment r).1,
          hx.pair (by decide) (by decide) fun r => (hcomment r).2⟩) _ p'
  | step gap front rest inner hstep ih =>
      rw [hstep.skipGap_eq] at e
      obtain ⟨hs, hx⟩ := ih e
      refine ⟨hs.trans (List.suffix_append _ _), fun x p' hapart hend => ?_⟩
      rw [List.append_assoc, (hstep.append hapart).skipGap_eq]
      exact hx x _ hapart hend

end Stencil.Script
