import Stencil.Proofs.Numbers.Order
import Stencil.Proofs.Tokens.Located
import Stencil.Proofs.Tokens.Words

/-!
# Tokens — numbers

`NumberText cs value`: the text `cs` is a number, written in decimal without a sign or in hexadecimal.
Such a text is all of it one token (`NumberText.next`), and what is read as a number at the front of a text
is such a text (`readNumber_front`).
-/

namespace Stencil.Script
open Stencil.Text

/-- **The texts of numbers.** -/
inductive NumberText : List Char → Float → Prop where
  | decimal {cs : List Char} {value : Float} :
      Number.unsigned? cs = some value → NumberText cs value
  | hexadecimal {mark : Char} {digits : List Char} {n : ℕ} : mark = 'x' ∨ mark = 'X' →
      Number.value? 16 digits = some n → n < UInt64.size →
      NumberText ('0' :: mark :: digits) (Number.ofNat n)

/-! ### Digits at the front -/

theorem takeWhile_digits {before rest : List Char} (h : before.all Char.isDigit = true)
    (hrest : ∀ c ∈ rest.head?, c.isDigit = false) :
    (before ++ rest).takeWhile Char.isDigit = before :=
  congrArg Prod.fst (Number.spanDigits_append h hrest)

theorem withDigits_all {before digits : List Char} (h : digits.all Char.isDigit = true)
    (hne : digits ≠ []) : withDigits before digits = before ++ digits := by
  have hall : digits.takeWhile Char.isDigit = digits :=
    List.takeWhile_eq_self_iff.mpr (List.all_eq_true.mp h)
  simp only [withDigits, hall, List.isEmpty_eq_false_iff.mpr hne]
  rfl

/-! ### Decimal numerals -/

/-- What is read as an exponent is all of it an exponent. -/
theorem exponentPart_of_exponent? {tail : List Char} {e : ℤ} (h : Number.exponent? tail = some e) :
    exponentPart tail = tail := by
  have all : ∀ {before digits : List Char} {f : ℤ → ℤ},
      ((Number.value? 10 digits).bind fun n => some (n : ℤ)).map f = some e →
      withDigits before digits = before ++ digits := by
    intro before digits f h
    obtain ⟨_, hvalue, -⟩ := Option.map_eq_some_iff.mp h
    obtain ⟨n, hn, -⟩ := Option.bind_eq_some_iff.mp hvalue
    obtain ⟨hne, hdigits⟩ := Number.isDigit_of_value? hn
    exact withDigits_all hdigits hne
  cases tail with
  | nil => rfl
  | cons mark rest =>
      simp only [Number.exponent?] at h
      split at h
      · rename_i hmark
        simp only [exponentPart, if_pos hmark]
        split at h
        · exact all h
        · exact all h
        · rename_i hminus hplus
          split
          · exact absurd rfl (hplus _)
          · exact absurd rfl (hminus _)
          · exact all h
      · cases h

section

variable {before after tail : List Char}

theorem numeralPart_whole (hbefore : before.all Char.isDigit = true)
    (htail : ∀ c ∈ tail.head?, c.isDigit = false ∧ c ≠ '.') :
    numeralPart (before ++ tail) = before ++ exponentPart tail := by
  simp only [numeralPart, takeWhile_digits hbefore fun c hc => (htail c hc).1, List.drop_left]
  split
  · exact absurd rfl (htail '.' rfl).2
  · rfl

theorem numeralPart_pointed (hbefore : before.all Char.isDigit = true)
    (hafter : after.all Char.isDigit = true) (htail : ∀ c ∈ tail.head?, c.isDigit = false) :
    numeralPart (before ++ '.' :: (after ++ tail)) =
      before ++ '.' :: (after ++ exponentPart tail) := by
  have hpoint : ∀ c ∈ ('.' :: (after ++ tail)).head?, c.isDigit = false := by
    rintro c ⟨⟩
    decide
  simp only [numeralPart, takeWhile_digits hbefore hpoint, List.drop_left,
    takeWhile_digits hafter htail, List.append_assoc, List.cons_append]

end

/-- **A decimal is all of it a numeral**, and a digit stands first in it or after a point. -/
theorem numeralPart_of_unsigned? {cs : List Char} {value : Float}
    (h : Number.unsigned? cs = some value) :
    numeralPart cs = cs ∧ ∃ c rest, cs = c :: rest ∧
      (c.isDigit = true ∨ c = '.' ∧ ∃ d ∈ rest.head?, d.isDigit = true) := by
  rcases Number.exists_point cs with ⟨before, tail, rfl, hbefore, htail⟩ |
    ⟨before, after, tail, rfl, hbefore, hafter, htail⟩
  · rw [Number.unsigned?_whole hbefore htail] at h
    split at h
    · cases h
    · rename_i hne
      obtain ⟨e, he, -⟩ := Option.map_eq_some_iff.mp h
      obtain ⟨c, more, heq, hc⟩ := Number.exists_digit hbefore (fun h => hne (List.isEmpty_iff.mpr h)) tail
      exact ⟨by rw [numeralPart_whole hbefore htail, exponentPart_of_exponent? he],
        c, more, heq, .inl hc⟩
  · rw [Number.unsigned?_pointed hbefore hafter htail] at h
    split at h
    · cases h
    · rename_i hne
      obtain ⟨e, he, -⟩ := Option.map_eq_some_iff.mp h
      refine ⟨by rw [numeralPart_pointed hbefore hafter htail, exponentPart_of_exponent? he], ?_⟩
      -- without digits before the point there are some after it
      cases before with
      | nil =>
          have hafter' : after ≠ [] := fun h => hne (by rw [h]; rfl)
          obtain ⟨d, more, heq, hd⟩ := Number.exists_digit hafter hafter' tail
          exact ⟨'.', after ++ tail, rfl, .inr ⟨rfl, d, by rw [heq]; rfl, hd⟩⟩
      | cons c before =>
          obtain ⟨d, more, heq, hd⟩ := Number.exists_digit hbefore (List.cons_ne_nil _ _)
            ('.' :: (after ++ tail))
          exact ⟨d, more, heq, .inl hd⟩

section

variable {P : Char → Prop}

theorem forall_withDigits {before : List Char} (hbefore : ∀ c ∈ before, P c)
    (digit : ∀ c, c.isDigit = true → P c) (cs : List Char) : ∀ c ∈ withDigits before cs, P c := by
  simp only [withDigits]
  split
  · exact List.forall_mem_nil _
  · exact List.forall_mem_append.mpr
      ⟨hbefore, fun c hc => digit c (List.all_eq_true.mp List.all_takeWhile c hc)⟩

theorem forall_exponentPart (digit : ∀ c, c.isDigit = true → P c)
    (mark : ∀ c ∈ ['e', 'E', '+', '-'], P c) (cs : List Char) : ∀ c ∈ exponentPart cs, P c := by
  cases cs with
  | nil => exact List.forall_mem_nil _
  | cons first rest =>
      simp only [exponentPart]
      split
      · rename_i hfirst
        have hmark : P first := by
          rcases Bool.or_eq_true_iff.mp hfirst with h | h <;> rw [beq_iff_eq.mp h] <;>
            exact mark _ (by decide)
        split
        · exact forall_withDigits (by simp [hmark, mark]) digit _
        · exact forall_withDigits (by simp [hmark, mark]) digit _
        · exact forall_withDigits (by simp [hmark]) digit _
      · exact List.forall_mem_nil _

/-- The characters of a numeral. -/
theorem forall_numeralPart (digit : ∀ c, c.isDigit = true → P c)
    (mark : ∀ c ∈ ['e', 'E', '+', '-', '.'], P c) (cs : List Char) :
    ∀ c ∈ numeralPart cs, P c := by
  have digits : ∀ {l : List Char}, l.all Char.isDigit = true → ∀ c ∈ l, P c :=
    fun h c hc => digit c (List.all_eq_true.mp h c hc)
  have exponent : ∀ tail, ∀ c ∈ exponentPart tail, P c :=
    forall_exponentPart digit fun c hc => mark c (List.mem_append_left ['.'] hc)
  rcases Number.exists_point cs with ⟨before, tail, rfl, hbefore, htail⟩ |
    ⟨before, after, tail, rfl, hbefore, hafter, htail⟩
  · rw [numeralPart_whole hbefore htail]
    exact List.forall_mem_append.mpr ⟨digits hbefore, exponent tail⟩
  · rw [numeralPart_pointed hbefore hafter htail]
    exact List.forall_mem_append.mpr ⟨digits hbefore, List.forall_mem_cons.mpr
      ⟨mark '.' (by decide), List.forall_mem_append.mpr ⟨digits hafter, exponent tail⟩⟩⟩

end

/-! ### Numbers -/

/-- Neither a gap nor a name begins with what a number begins with. -/
theorem not_gap_of_digit {c : Char} (h : c.isDigit = true ∨ c = '.') :
    (∀ rest p, skipGap .blanks false p (c :: rest) = .ok (false, ⟨c :: rest, p⟩)) ∧
      isNameStart c = false := by
  obtain ⟨hline, hblank, hslash, hname⟩ : isLineEnd c = false ∧
      (isBlank c || c == '\ufeff') = false ∧ c ≠ '/' ∧ isNameStart c = false := by
    rcases h with h | rfl
    · have other : ∀ {d : Char}, d.isDigit = false → c ≠ d := by
        rintro d hd rfl
        rw [h] at hd
        cases hd
      refine ⟨@not_isLineEnd Char.isDigit (forall_of_all (by decide)) c h, ?_, other (by decide), ?_⟩
      · rw [@not_isBlank Char.isDigit (by decide +kernel) c h, Bool.false_or]
        exact beq_eq_false_iff_ne.mpr (other (by decide))
      · refine Bool.eq_false_iff.mpr fun hname => ?_
        rw [not_isDigit_of_isNameStart hname] at h
        cases h
    · decide +kernel
  refine ⟨fun rest p => skipGap_none hline hblank (fun r => ⟨?_, ?_⟩) false p, hname⟩
  · exact fun h => hslash (List.cons.inj h).1
  · exact fun h => hslash (List.cons.inj h).1

theorem isHexDigit_of_value? {digits : List Char} {n : ℕ} (h : Number.value? 16 digits = some n) :
    ∀ c ∈ digits, Number.isHexDigit c = true :=
  (Number.value?_eq_some_iff.mp h).2.1

/-- The characters of a number. -/
theorem NumberText.forall {P : Char → Prop} {cs : List Char} {value : Float}
    (h : NumberText cs value) (digit : ∀ c, c.isDigit = true → P c)
    (hexDigit : ∀ c, Number.isHexDigit c = true → P c)
    (mark : ∀ c ∈ ['x', 'X', '+', '-', '.'], P c) : ∀ c ∈ cs, P c := by
  cases h with
  | decimal h =>
      rw [← (numeralPart_of_unsigned? h).1]
      refine forall_numeralPart digit (fun c hc => ?_) cs
      rcases List.mem_cons.mp hc with rfl | hc
      · exact hexDigit _ (by decide)
      · rcases List.mem_cons.mp hc with rfl | hc
        · exact hexDigit _ (by decide)
        · exact mark c (List.mem_cons_of_mem _ (List.mem_cons_of_mem _ hc))
  | hexadecimal hmark hvalue _ =>
      refine List.forall_mem_cons.mpr ⟨digit '0' (by decide), List.forall_mem_cons.mpr
        ⟨?_, fun c hc => hexDigit c (isHexDigit_of_value? hvalue c hc)⟩⟩
      rcases hmark with rfl | rfl <;> exact mark _ (by decide)

namespace NumberText

variable {cs : List Char} {value : Float}

/-- What a number begins with. -/
theorem begins (h : NumberText cs value) : ∃ c rest, cs = c :: rest ∧
    (c.isDigit = true ∨ c = '.' ∧ ∃ d ∈ rest.head?, d.isDigit = true) := by
  cases h with
  | decimal h => exact (numeralPart_of_unsigned? h).2
  | hexadecimal _ _ _ => exact ⟨_, _, rfl, .inl (by decide)⟩

theorem rounded (h : NumberText cs value) : Number.Rounded value := by
  cases h with
  | decimal h => exact Number.unsigned?_rounded h
  | hexadecimal _ _ _ => exact Number.nearest_rounded _ 1

/-- **A number is read as its value.** -/
theorem readNumber (h : NumberText cs value) (p : Position) :
    ∃ q, Script.readNumber ⟨cs, p⟩ = .ok (.number value, ⟨[], q⟩) := by
  cases h with
  | decimal h =>
      obtain ⟨hall, -⟩ := numeralPart_of_unsigned? h
      -- no letter of a numeral is the mark of hexadecimal digits
      have hmark : ∀ c ∈ cs, c ≠ 'x' ∧ c ≠ 'X' := by
        rw [← hall]
        refine forall_numeralPart (fun c hc => ?_) (by simp) cs
        constructor <;> rintro rfl <;> exact absurd hc (by decide)
      have hdecimal : Script.readNumber ⟨cs, p⟩ = readDecimal ⟨cs, p⟩ := by
        rw [Script.readNumber]
        split
        · exact absurd rfl (hmark 'x' (by simp_all)).1
        · exact absurd rfl (hmark 'X' (by simp_all)).2
        · rfl
      refine ⟨(Cursor.drop ⟨cs, p⟩ cs.length).position, ?_⟩
      rw [hdecimal, readDecimal]
      simp only [hall, h, Cursor.drop, List.drop_length]
      rfl
  | @hexadecimal mark digits n hmark hvalue hsize =>
      have hall : digits.takeWhile Number.isHexDigit = digits :=
        List.takeWhile_eq_self_iff.mpr (isHexDigit_of_value? hvalue)
      have hread : ∀ q, readHexadecimal ⟨digits, q⟩ =
          .ok (.number (Number.ofNat n), ⟨[], q.along digits.length⟩) := by
        intro q
        simp only [readHexadecimal, hall, hvalue, if_pos hsize, Cursor.drop, List.drop_length]
      rcases hmark with rfl | rfl
      · exact ⟨_, hread (p.along 2)⟩
      · exact ⟨_, hread (p.along 2)⟩

/-- **A number is all of it one token.** -/
theorem next (h : NumberText cs value) : Next cs (.number value, false) [] := by
  obtain ⟨c, rest, rfl, hc⟩ := h.begins
  obtain ⟨hgap, hname⟩ := not_gap_of_digit (hc.imp id And.left)
  intro p
  obtain ⟨q, hq⟩ := h.readNumber p
  refine ⟨c :: rest, p, q, hgap rest p, ?_⟩
  rcases hc with hc | ⟨rfl, d, hd, hdigit⟩
  · simp only [readToken, hname, hc, Bool.false_eq_true, if_false, if_true, hq]
  · simp only [readToken, hname, Option.mem_def.mp hd, Option.map_some, Option.getD_some, hdigit,
      Bool.false_eq_true, if_false, hq]
    rfl

end NumberText

/-- The characters that a hexadecimal number takes from the front of a text. -/
theorem readHexadecimal_front {cs : List Char} {p : Position} {kind : TokenKind} {next : Cursor}
    (e : readHexadecimal ⟨cs, p⟩ = .ok (kind, next)) : ∃ digits n, cs = digits ++ next.rest ∧
      kind = .number (Number.ofNat n) ∧ Number.value? 16 digits = some n ∧ n < UInt64.size := by
  simp only [readHexadecimal, Cursor.drop] at e
  split at e
  · rename_i n hvalue
    split at e
    · rename_i hsize
      cases e
      exact ⟨_, n, (List.prefix_iff_eq_append.mp (List.takeWhile_prefix _)).symm, rfl, hvalue, hsize⟩
    · cases e
  · cases e

theorem readDecimal_front {cs : List Char} {p : Position} {kind : TokenKind} {next : Cursor}
    (e : readDecimal ⟨cs, p⟩ = .ok (kind, next)) : ∃ numeral value, cs = numeral ++ next.rest ∧
      kind = .number value ∧ Number.unsigned? numeral = some value := by
  simp only [readDecimal] at e
  split at e
  · cases e
  · split at e
    · rename_i value hvalue
      cases e
      exact ⟨_, value, (List.prefix_iff_eq_append.mp (InLine.numeral cs).1).symm, rfl, hvalue⟩
    · cases e

/-- **What is read as a number is the text of one.** -/
theorem readNumber_front {cs : List Char} {p : Position} {kind : TokenKind} {next : Cursor}
    (e : readNumber ⟨cs, p⟩ = .ok (kind, next)) : ∃ front value, cs = front ++ next.rest ∧
      kind = .number value ∧ NumberText front value := by
  have hexadecimal : ∀ {mark : Char} {rest : List Char}, mark = 'x' ∨ mark = 'X' →
      readHexadecimal (Cursor.drop ⟨'0' :: mark :: rest, p⟩ 2) = .ok (kind, next) →
      ∃ front value, '0' :: mark :: rest = front ++ next.rest ∧ kind = .number value ∧
        NumberText front value := by
    intro mark rest hmark e
    obtain ⟨digits, n, hrest, hkind, hvalue, hsize⟩ := readHexadecimal_front e
    exact ⟨'0' :: mark :: digits, _, congrArg (fun l => '0' :: mark :: l) hrest, hkind,
      .hexadecimal hmark hvalue hsize⟩
  simp only [readNumber] at e
  split at e
  · exact hexadecimal (.inl rfl) e
  · exact hexadecimal (.inr rfl) e
  · obtain ⟨numeral, value, hcs, hkind, hvalue⟩ := readDecimal_front e
    exact ⟨numeral, value, hcs, hkind, .decimal hvalue⟩

/-- Words, strings and signs are no numbers. -/
theorem readNumber_of_readToken {cs : List Char} {p : Position} {value : Float} {next : Cursor}
    (e : readToken ⟨cs, p⟩ = .ok (.number value, next)) :
    readNumber ⟨cs, p⟩ = .ok (.number value, next) := by
  rw [readToken] at e
  split at e
  · cases e
  · rename_i c rest hrest
    by_cases hname : isNameStart c = true
    · have hword := congrArg Prod.fst (Except.ok.inj ((if_pos hname).symm.trans e))
      simp only [readWord] at hword
      split at hword <;> cases hword
    rw [if_neg hname] at e
    by_cases hdigit : c.isDigit = true
    · exact (if_pos hdigit).symm.trans e
    rw [if_neg hdigit] at e
    by_cases hdot : (c == '.' && (rest.head?.map Char.isDigit).getD false) = true
    · exact (if_pos hdot).symm.trans e
    rw [if_neg hdot] at e
    by_cases hquote : (c == '\'' || c == '"') = true
    · obtain ⟨_, hvalue⟩ := readString_kind ((if_pos hquote).symm.trans e)
      cases hvalue
    rw [if_neg hquote, readSign] at e
    split at e <;> cases e

end Stencil.Script
