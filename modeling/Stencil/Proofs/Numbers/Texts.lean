import Mathlib
import Stencil.Proofs.Numbers.Layout
import Stencil.Proofs.Tokens.Spelled
import Stencil.Script.Conversion

/-!
# Numbers — numbers as texts and back

The text of a finite number is the text of its magnitude, with a minus before it if the number is
below zero (`text_signed`).  A script that makes a number of this text reads the number again, and
the text of a number without a sign is in a program a literal of this number (`text_readings`).

A text that is to be a number may be more than a numeral: blanks at its ends, hexadecimal digits and
infinities are looked for first.  None of them is found in a numeral (`textNumber_of_signed`).
-/

namespace Stencil.Number
open Script

/-! ### The sign -/

/-- Zero has no sign as text. -/
theorem text_signed {x : Float} (h : x.isFinite = true) : (text x).toList =
    (if signBit x = true ∧ ¬ (x == 0) = true then ['-'] else []) ++ (text x.abs).toList := by
  have habs := isFinite_abs h
  have hzero : (x.abs == 0) = true ↔ (x == 0) = true :=
    (bits_eq_zero_iff (signBit_abs h)).trans (beq_zero_iff h).symm
  rw [text, text, not_isNaN_of_isFinite h, not_isInf_of_isFinite h, not_isNaN_of_isFinite habs,
    not_isInf_of_isFinite habs, signBit_abs h, magnitudeText, magnitudeText, ofFloat_abs h]
  simp only [Bool.false_eq_true, if_false, hzero]
  by_cases hx : (x == 0) = true
  · rw [if_pos hx, if_pos hx, if_neg fun hs => hs.2 hx]
    rfl
  · rw [if_neg hx, if_neg hx, String.toList_ofList, String.toList_ofList]
    simp [hx]

/-! ### Texts that are read as numbers -/

/-- The characters of a numeral can stand in one. -/
theorem Numeral.isNumeralChar {cs : List Char} {m : ℕ} {e : ℤ} (h : Numeral cs m e) :
    ∀ c ∈ cs, Script.isNumeralChar c = true :=
  h.forall (fun c hc => by simp [Script.isNumeralChar, hc]) (by simp [Script.isNumeralChar])

theorem isBlank_of_isNumeralChar {c : Char} (h : Script.isNumeralChar c = true) :
    Text.isBlank c = false :=
  not_isBlank (by decide +kernel) h

/-- A text without blanks keeps its ends. -/
theorem trimChars_of_forall {cs : List Char} (h : ∀ c ∈ cs, Text.isBlank c = false) :
    Text.trimChars cs = cs := by
  have front : ∀ {l : List Char}, (∀ c ∈ l, Text.isBlank c = false) → Text.trimFront l = l := by
    intro l hl
    cases l with
    | nil => rfl
    | cons c l =>
        exact List.dropWhile_cons_of_neg (by rw [hl c List.mem_cons_self]; decide)
  rw [Text.trimChars, front h, front fun c hc => h c (List.mem_reverse.mp hc), List.reverse_reverse]

/-- **A text as a number**, where it is nothing but a numeral with its sign. -/
theorem textNumber_of_signed {t : String} {x : Float} (hne : t.toList ≠ [])
    (hchars : ∀ c ∈ t.toList, Script.isNumeralChar c = true) (h : signed? t.toList = some x) :
    textNumber t = x := by
  have hother : ∀ {c : Char}, Script.isNumeralChar c = false → c ∉ t.toList := by
    intro c hc hmem
    rw [hchars c hmem] at hc
    cases hc
  have hinfinite : ∀ {word : String}, 'I' ∈ word.toList → (t.toList == word.toList) = false := by
    intro word hword
    refine beq_eq_false_iff_ne.mpr fun heq => ?_
    exact hother (c := 'I') (by decide) (heq ▸ hword)
  rw [textNumber, trimChars_of_forall fun c hc => isBlank_of_isNumeralChar (hchars c hc)]
  split
  · rename_i hnil
    exact absurd hnil hne
  · rename_i digits heq
    exact absurd (heq ▸ by simp) (hother (c := 'x') (by decide))
  · rename_i digits heq
    exact absurd (heq ▸ by simp) (hother (c := 'X') (by decide))
  · rw [hinfinite (by decide), hinfinite (by decide), hinfinite (by decide),
      List.all_eq_true.mpr hchars, h]
    rfl

/-- The text of a number, read as a number. -/
theorem textNumber_text {x : Float} (h : x.isFinite = true) :
    textNumber (text x) = if (x == 0) = true then 0 else x := by
  obtain ⟨m, e, hnumeral, hvalue⟩ := numeral_text (isFinite_abs h) (signBit_abs h)
  have htext := text_signed h
  have hback := withSign_abs h
  obtain ⟨c, rest, hcs, hc⟩ := hnumeral.begins
  have hunsigned := hnumeral.unsigned?
  rw [hvalue] at hunsigned
  by_cases hminus : signBit x = true ∧ ¬ (x == 0) = true
  · rw [if_pos hminus] at htext
    rw [if_neg hminus.2]
    refine textNumber_of_signed (by simp [htext]) ?_ ?_
    · rw [htext]
      intro d hd
      rcases List.mem_append.mp hd with hd | hd
      · rw [List.mem_singleton.mp hd]
        decide
      · exact hnumeral.isNumeralChar d hd
    · rw [htext]
      show (unsigned? (text x.abs).toList).map (withSign true) = some x
      rw [hunsigned, Option.map_some, ← hminus.1, hback]
  · rw [if_neg hminus, List.nil_append] at htext
    -- a digit stands first
    have hplain : signed? (text x.abs).toList = some x.abs := by
      rw [← hunsigned, hcs, signed?_cons (.inl hc)]
    rw [textNumber_of_signed (by simp [htext, hcs]) (htext ▸ hnumeral.isNumeralChar)
      (htext ▸ hplain)]
    by_cases hx : (x == 0) = true
    · rw [if_pos hx]
      exact Float.toBits_inj.mp (UInt64.toNat_inj.mp ((beq_zero_iff h).mp hx))
    · have hs : signBit x = false := by
        simpa [hx] using hminus
      rw [if_neg hx]
      rwa [hs] at hback

/-- The text of a number without a sign, read as a program. -/
theorem tokens_text {x : Float} (h : x.isFinite = true) (hs : signBit x = false) :
    ∃ ts, tokens (text x) = .ok ts ∧
      ts.map Token.mark = [(.number x, false), (.stop, false)] :=
  tokens_of_next (Next.numeral (by simp [isLiteral, h, hs])) rfl

/-- **Numbers as texts and back.**  The text of a finite number is this number for a script, a zero
losing its sign, and it is the literal of the number in a program if there is no sign.  It is in
positional notation for zero and for the magnitudes from 1e-6 on and below 1e21. -/
theorem text_readings {x : Float} (h : x.isFinite = true) :
    (∀ s : Store, s.number (.string (text x)) = if (x == 0) = true then 0 else x) ∧
      (signBit x = false → ∃ ts, tokens (text x) = .ok ts ∧
        ts.map Token.mark = [(.number x, false), (.stop, false)]) ∧
      (Positional (text x).toList ↔ (x == 0) = true ∨ (1e-6 : Float) ≤ x.abs ∧ x.abs < 1e21) :=
  ⟨fun _ => textNumber_text h, tokens_text h, positional_text_iff h⟩

/-- A number that is too small for positional notation. -/
theorem text_readings_small : (1e-7 : Float).isFinite = true ∧
    (∀ s : Store, s.number (.string (text 1e-7)) = 1e-7) ∧
    (∃ ts, tokens (text 1e-7) = .ok ts ∧
      ts.map Token.mark = [(.number 1e-7, false), (.stop, false)]) ∧
    ¬ Positional (text 1e-7).toList := by
  have hfinite : (1e-7 : Float).isFinite = true := by decide +kernel
  obtain ⟨hnumber, htokens, hpositional⟩ := text_readings hfinite
  refine ⟨hfinite, fun s => ?_, htokens (by decide +kernel), fun h => ?_⟩
  · rw [hnumber, if_neg (by decide +kernel)]
  · exact absurd (hpositional.mp h) (by decide +kernel)

end Stencil.Number
