import Stencil.Number.Fixed
import Stencil.Number.Written
import Stencil.Proofs.Numbers.Digits

/-!
# Numbers — how long they are when written

The texts of numbers are short, whatever the number: the exponents of two between which the bits of a
number can choose bound the powers of ten between which its digits stand.

* `bytes`: how many bytes characters are in a text.
* `bytes_text`, `bytes_fixed`, `bytes_natText`: how many bytes the texts of numbers have at most.
-/

namespace Stencil.Number

/-! ### Bytes -/

/-- How many bytes characters are in a text. -/
def bytes (cs : List Char) : Nat :=
  (cs.map Char.utf8Size).sum

@[simp] theorem bytes_cons (c : Char) (cs : List Char) : bytes (c :: cs) = c.utf8Size + bytes cs :=
  rfl

theorem utf8ByteSize_ofList (cs : List Char) : (String.ofList cs).utf8ByteSize = bytes cs := by
  induction cs with
  | nil => rfl
  | cons c cs ih =>
      have split : String.ofList (c :: cs) = String.singleton c ++ String.ofList cs := by
        rw [String.singleton_eq_ofList, ← String.ofList_append]
        rfl
      rw [split, String.utf8ByteSize_append, String.utf8ByteSize_singleton, ih, bytes_cons]

theorem bytes_toList (t : String) : bytes t.toList = t.utf8ByteSize := by
  rw [← utf8ByteSize_ofList, String.ofList_toList]

theorem length_le_bytes (cs : List Char) : cs.length ≤ bytes cs := by
  induction cs with
  | nil => exact Nat.le_refl 0
  | cons c cs ih =>
      have := c.utf8Size_pos
      rw [List.length_cons, bytes_cons]
      omega

theorem bytes_le (cs : List Char) : bytes cs ≤ 4 * cs.length := by
  induction cs with
  | nil => exact Nat.le_refl 0
  | cons c cs ih =>
      have := c.utf8Size_le_four
      rw [List.length_cons, bytes_cons]
      omega

/-- What is left of characters has no more bytes. -/
theorem bytes_sublist {part cs : List Char} (h : part.Sublist cs) : bytes part ≤ bytes cs := by
  induction h with
  | slnil => exact Nat.le_refl 0
  | cons c _ ih => exact Nat.le_add_left_of_le ih
  | cons_cons c _ ih => exact Nat.add_le_add_left ih c.utf8Size

/-! ### Digits -/

theorem length_decimalDigits_le {n k : Nat} (hk : 0 < k) (h : n < 10 ^ k) :
    (decimalDigits n).length ≤ k := by
  rcases Nat.eq_zero_or_pos n with rfl | hn
  · exact hk
  · have := (Nat.pow_lt_pow_iff_right (show 1 < 10 by decide)).mp
      (Nat.lt_of_le_of_lt (pow_le_of_decimalDigits hn) h)
    omega

theorem bytes_natText {n k : Nat} (hk : 0 < k) (h : n < 10 ^ k) :
    (natText n).utf8ByteSize ≤ 4 * k := by
  rw [natText, utf8ByteSize_ofList]
  have := bytes_le (decimalDigits n)
  have := length_decimalDigits_le hk h
  omega

theorem length_dropZeros (digits : List Char) : (dropZeros digits).length ≤ digits.length + 1 := by
  rw [dropZeros]
  split
  · exact Nat.succ_le_succ (Nat.zero_le _)
  · rw [List.length_reverse]
    have := (List.dropWhile_sublist (· == '0') (l := digits.reverse)).length_le
    rw [List.length_reverse] at this
    omega

/-! ### Magnitudes -/

/-- Magnitudes whose mantissa and exponent the bits of a number can hold. -/
structure Dyadic.Held (d : Dyadic) : Prop where
  mantissa : d.mantissa < 2 ^ 53
  least : -1074 ≤ d.exponent
  greatest : d.exponent ≤ 972

theorem Dyadic.held_ofBits (bits : Nat) : (Dyadic.ofBits bits).Held := by
  have hfraction : bits % Nat.pow 2 52 < 4503599627370496 := Nat.mod_lt _ (by decide)
  have hbiased : bits / Nat.pow 2 52 % Nat.pow 2 11 < 2048 := Nat.mod_lt _ (by decide)
  have hpow : Nat.pow 2 52 = 4503599627370496 := by decide
  simp only [Dyadic.ofBits]
  generalize bits / Nat.pow 2 52 % Nat.pow 2 11 = biased at *
  rw [hpow] at *
  split <;> exact ⟨by dsimp only; omega, by dsimp only; omega, by dsimp only; omega⟩

/-- The quotient that a magnitude is has no more than these digits. -/
theorem Dyadic.Held.quotient {d : Dyadic} (h : d.Held) :
    d.quotient.1 < 10 ^ 309 ∧ 0 < d.quotient.2 ∧ d.quotient.2 < 10 ^ 324 := by
  obtain ⟨hmantissa, hleast, hgreatest⟩ := h
  refine ⟨?_, Nat.pow_pos (by decide), ?_⟩
  · calc d.mantissa * 2 ^ d.exponent.toNat ≤ 2 ^ 53 * 2 ^ 972 :=
        Nat.mul_le_mul (Nat.le_of_lt hmantissa) (Nat.pow_le_pow_right (by decide) (by omega))
      _ < 10 ^ 309 := by decide +kernel
  · calc 2 ^ (-d.exponent).toNat ≤ 2 ^ 1074 := Nat.pow_le_pow_right (by decide) (by omega)
      _ < 10 ^ 324 := by decide +kernel

/-- Where the point of a magnitude stands. -/
theorem Dyadic.Held.point {d : Dyadic} (h : d.Held) : -323 ≤ d.point ∧ d.point ≤ 309 := by
  obtain ⟨hnum, hpos, hden⟩ := h.quotient
  simp only [Dyadic.point]
  split
  · have := length_decimalDigits_le (k := 309) (by decide)
      (Nat.lt_of_le_of_lt (Nat.div_le_self d.quotient.1 d.quotient.2) hnum)
    omega
  · have hinverse : (d.quotient.2 - 1) / d.quotient.1 < 10 ^ 324 :=
      Nat.lt_of_le_of_lt ((Nat.div_le_self _ _).trans (Nat.sub_le _ 1)) hden
    have := length_decimalDigits_le (by decide) hinverse
    omega

/-- What is on a grid of that many digits has no more than these digits. -/
theorem Dyadic.Held.onGrid {d : Dyadic} (h : d.Held) {point : Int} {count : Nat} {hit : Nat × Int}
    (hit_eq : d.onGrid? point count = some hit) (hlow : -323 ≤ point) (hcount : count ≤ 17) :
    hit.1 < 10 ^ 650 ∧ hit.2 = point - count := by
  obtain ⟨hnum, -, -⟩ := h.quotient
  have hscaled : d.quotient.1 * 10 ^ (-(point - count)).toNat ≤ 10 ^ 309 * (10 ^ 170 * 10 ^ 170) :=
    Nat.mul_le_mul (Nat.le_of_lt hnum) ((Nat.pow_le_pow_right (by decide) (by omega)).trans
      (Nat.le_of_eq (Nat.pow_add 10 170 170)))
  have hlimit : 10 ^ 309 * (10 ^ 170 * 10 ^ 170) + 1 < 10 ^ 650 := by decide +kernel
  have below (den : Nat) : d.quotient.1 * 10 ^ (-(point - count)).toNat / den + 1 < 10 ^ 650 :=
    Nat.lt_of_le_of_lt (Nat.add_le_add_right ((Nat.div_le_self _ _).trans hscaled) 1) hlimit
  simp only [Dyadic.onGrid?, Nat.pow_eq] at hit_eq
  have hbelow := below (d.quotient.2 * 10 ^ (point - count).toNat)
  split at hit_eq <;> cases hit_eq
  · refine ⟨?_, rfl⟩
    dsimp only
    split
    · exact Nat.lt_of_succ_lt hbelow
    · exact hbelow
  · exact ⟨Nat.lt_of_succ_lt hbelow, rfl⟩
  · exact ⟨hbelow, rfl⟩

/-- The digits that are found, and how far from the point they end. -/
theorem Dyadic.Held.search {d : Dyadic} (h : d.Held) {point : Int} (hlow : -323 ≤ point)
    (hhigh : point ≤ 309) {left count : Nat} (hcount : count + left ≤ 18) :
    (d.search point left count).1 < 10 ^ 1100 ∧ -1100 ≤ (d.search point left count).2 ∧
      (d.search point left count).2 ≤ 309 := by
  induction left generalizing count with
  | zero =>
      obtain ⟨hmantissa, hleast, hgreatest⟩ := h
      rw [Dyadic.search]
      refine ⟨?_, by dsimp only; omega, by dsimp only; omega⟩
      calc d.mantissa * 2 ^ d.exponent.toNat * 5 ^ (-d.exponent).toNat
          ≤ 2 ^ 53 * 2 ^ 972 * 5 ^ 1074 :=
            Nat.mul_le_mul (Nat.mul_le_mul (Nat.le_of_lt hmantissa)
              (Nat.pow_le_pow_right (by decide) (by omega)))
              (Nat.pow_le_pow_right (by decide) (by omega))
        _ < 10 ^ 1100 := by decide +kernel
  | succ left ih =>
      rw [Dyadic.search]
      split
      · rename_i hit hhit
        obtain ⟨hn, hgrid⟩ := h.onGrid hhit hlow (by omega)
        refine ⟨hn.trans (by decide +kernel), by omega, by omega⟩
      · exact ih (by omega)

/-- Decimals of few digits near the point. -/
structure Decimal.Short (d : Decimal) : Prop where
  digits : d.digits.length ≤ 1101
  least : -1100 ≤ d.point
  greatest : d.point ≤ 1409

theorem Dyadic.Held.shortest {d : Dyadic} (h : d.Held) : d.shortest.Short := by
  obtain ⟨hlow, hhigh⟩ := h.point
  obtain ⟨hn, hleast, hgreatest⟩ := h.search hlow hhigh (show 1 + 17 ≤ 18 by decide)
  have hlength := length_decimalDigits_le (by decide) hn
  have hdrop := length_dropZeros (decimalDigits (d.search d.point 17 1).1)
  simp only [Dyadic.shortest]
  exact ⟨by dsimp only; omega, by dsimp only; omega, by dsimp only; omega⟩

theorem Decimal.Short.length_positional {d : Decimal} (h : d.Short) :
    d.positional.length ≤ 2300 := by
  obtain ⟨hdigits, hleast, hgreatest⟩ := h
  simp only [Decimal.positional]
  split
  · simp only [List.length_cons, List.length_append, List.length_replicate]
    omega
  · split
    · simp only [List.length_append, List.length_replicate]
      omega
    · simp only [List.length_append, List.length_cons, List.length_take, List.length_drop]
      omega

theorem Decimal.Short.length_scientific {d : Decimal} (h : d.Short) :
    d.scientific.length ≤ 2300 := by
  obtain ⟨hdigits, hleast, hgreatest⟩ := h
  have hexponent := length_decimalDigits_le (n := (d.point - 1).natAbs) (k := 4) (by decide)
    (by omega)
  simp only [Decimal.scientific]
  split
  · rename_i first second rest hsome
    rw [hsome] at hdigits
    simp only [List.length_cons, List.length_append] at *
    omega
  · simp only [List.length_cons, List.length_append]
    omega

/-! ### Texts -/

theorem length_magnitudeText (x : Float) : (magnitudeText x).length ≤ 2300 := by
  have short := (Dyadic.held_ofBits x.toBits.toNat).shortest
  simp only [magnitudeText]
  split
  · exact short.length_positional
  · exact short.length_scientific

/-- **The text of a number** has no more than these bytes. -/
theorem bytes_text (x : Float) : (text x).utf8ByteSize ≤ 10000 := by
  rw [text]
  split
  · decide
  · split
    · split <;> decide
    · split
      · decide
      · rw [utf8ByteSize_ofList]
        have := bytes_le ((if signBit x then ['-'] else []) ++ magnitudeText x)
        have := length_magnitudeText x
        have sign : (if signBit x then ['-'] else []).length ≤ 1 := by split <;> decide
        rw [List.length_append] at *
        omega

theorem roundEven_le (num den : Nat) : roundEven num den ≤ num / den + 1 := by
  simp only [roundEven]
  split
  · exact Nat.le_add_right _ 1
  · split
    · exact Nat.le_refl _
    · split
      · exact Nat.le_add_right _ 1
      · exact Nat.le_refl _

theorem Dyadic.Held.length_rounded {d : Dyadic} (h : d.Held) {places : Nat}
    (hplaces : places ≤ 101) : (d.rounded places).length ≤ 413 := by
  obtain ⟨hnum, -, -⟩ := h.quotient
  have hscaled : d.quotient.1 * 10 ^ places ≤ 10 ^ 309 * 10 ^ 101 :=
    Nat.mul_le_mul (Nat.le_of_lt hnum) (Nat.pow_le_pow_right (by decide) hplaces)
  have hlimit : 10 ^ 309 * 10 ^ 101 + 1 < 10 ^ 412 := by decide +kernel
  have hround : roundEven (d.quotient.1 * 10 ^ places) d.quotient.2 < 10 ^ 412 :=
    calc roundEven (d.quotient.1 * 10 ^ places) d.quotient.2
        ≤ d.quotient.1 * 10 ^ places / d.quotient.2 + 1 := roundEven_le _ _
      _ ≤ 10 ^ 309 * 10 ^ 101 + 1 := Nat.add_le_add_right ((Nat.div_le_self _ _).trans hscaled) 1
      _ < 10 ^ 412 := hlimit
  have hdigits := length_decimalDigits_le (by decide) hround
  simp only [Dyadic.rounded, pointed, padZeros, Nat.pow_eq]
  split <;> simp only [List.length_append, List.length_replicate, List.length_cons,
    List.length_take, List.length_drop] <;> omega

theorem length_dropPlace (cs : List Char) : (dropPlace cs).length ≤ cs.length := by
  simp only [dropPlace]
  split <;> simp only [List.length_dropLast] <;> omega

theorem length_increment (cs : List Char) : (increment cs).length ≤ cs.length + 1 := by
  induction cs using increment.induct with
  | case1 => exact Nat.le_refl _
  | case2 rest ih | case3 rest ih => exact Nat.succ_le_succ ih
  | case4 c rest => rw [increment] <;> simp_all

/-- **A number with a fixed count of places** has no more than these bytes. -/
theorem bytes_fixed (x : Float) {places : Nat} (hplaces : places ≤ 100) :
    (fixed x places).utf8ByteSize ≤ 10000 := by
  have hheld := Dyadic.held_ofBits x.toBits.toNat
  have hrounded := hheld.length_rounded (show places ≤ 101 by omega)
  have hdrop := length_dropPlace ((Dyadic.ofFloat x).rounded (places + 1))
  have hnext := hheld.length_rounded (show places + 1 ≤ 101 by omega)
  have hincrement :=
    length_increment (dropPlace ((Dyadic.ofFloat x).rounded (places + 1))).reverse
  rw [List.length_reverse] at hincrement
  have hfixed : ((Dyadic.ofFloat x).fixed places).length ≤ 414 := by
    rw [Dyadic.fixed]
    split
    · rw [List.length_reverse]
      exact hincrement.trans (by unfold Dyadic.ofFloat at *; omega)
    · exact hrounded.trans (by decide)
  have sign : (if x < 0 then ['-'] else []).length ≤ 1 := by split <;> decide
  simp only [fixed]
  rw [utf8ByteSize_ofList]
  have := bytes_le ((if x < 0 then ['-'] else []) ++ (Dyadic.ofFloat x).fixed places)
  rw [List.length_append] at this
  omega

end Stencil.Number
