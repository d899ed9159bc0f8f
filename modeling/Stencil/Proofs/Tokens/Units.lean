import Mathlib.Tactic.Common
import Stencil.Script.Token.Scan

/-!
# Tokens — code units

UTF-16 writes a character beyond U+FFFF as two code units, a high and a low half.  `decode` joins
each high half with a low half right after it, and a half without the other becomes U+FFFD.

Two sequences may be decoded apart from each other if the first does not end in the high half of a
pair that the second begins with (`decode_append`).  Otherwise the pair is lost, which makes the
text longer by a character (`length_decode_divided`), so that `Divided` tells exactly when a
sequence cannot be decoded in parts (`flatMap_decode_iff`). -/

namespace Stencil.Utf16

/-- The high halves of surrogate pairs. -/
def isHigh (unit : Nat) : Bool :=
  0xD800 ≤ unit && unit < 0xDC00

/-- The low halves. -/
def isLow (unit : Nat) : Bool :=
  0xDC00 ≤ unit && unit < 0xE000

/-- The character with a code point, or U+FFFD where there is none. -/
def charOfCode (code : Nat) : Char :=
  if code.isValidChar then Char.ofNat code else '\ufffd'

/-- The code point of a pair of halves. -/
def join (high low : Nat) : Nat :=
  0x10000 + (high - 0xD800) * 0x400 + (low - 0xDC00)

/-- The code units of a code point. -/
def encode (code : Nat) : List Nat :=
  if code < 0x10000 then [code]
  else [0xD800 + (code - 0x10000) / 0x400, 0xDC00 + (code - 0x10000) % 0x400]

/-- **The text of a sequence of code units.** -/
def decode : List Nat → List Char
  | [] => []
  | [unit] => [charOfCode unit]
  | unit :: next :: rest =>
    if isHigh unit && isLow next then charOfCode (join unit next) :: decode rest
    else charOfCode unit :: decode (next :: rest)

/-! ### Code points -/

theorem not_isLow_of_isHigh {unit : Nat} (h : isHigh unit = true) : isLow unit = false := by
  simp only [isHigh, isLow, Bool.and_eq_true, decide_eq_true_eq, Bool.and_eq_false_iff,
    decide_eq_false_iff_not] at h ⊢
  omega

theorem charOfCode_half {unit : Nat} (h : isHigh unit = true ∨ isLow unit = true) :
    charOfCode unit = '\ufffd' := by
  simp only [isHigh, isLow, Bool.and_eq_true, decide_eq_true_eq] at h
  refine if_neg fun hvalid => ?_
  rcases hvalid with hvalid | hvalid
  · omega
  · omega

theorem charOfCode_toNat (c : Char) : charOfCode c.toNat = c := by
  rw [charOfCode, if_pos (show c.toNat.isValidChar from c.valid), Char.ofNat_toNat]

theorem join_halves {high low q r : Nat} (hhigh : high = 0xD800 + q) (hlow : low = 0xDC00 + r) :
    join high low = 0x10000 + q * 0x400 + r := by
  unfold join
  omega

theorem decode_pair {high low : Nat} (hhigh : isHigh high = true) (hlow : isLow low = true)
    (rest : List Nat) : decode (high :: low :: rest) = charOfCode (join high low) :: decode rest :=
  if_pos (by rw [hhigh, hlow, Bool.and_true])

/-- **A code point is decoded as itself.** -/
theorem decode_encode {code : Nat} (h : code ≤ 0x10FFFF) :
    decode (encode code) = [charOfCode code] := by
  rw [encode]
  by_cases hcode : code < 0x10000
  · rw [if_pos hcode, decode]
  · have hhigh : isHigh (0xD800 + (code - 0x10000) / 0x400) = true := by
      simp only [isHigh, Bool.and_eq_true, decide_eq_true_eq]
      omega
    have hlow : isLow (0xDC00 + (code - 0x10000) % 0x400) = true := by
      simp only [isLow, Bool.and_eq_true, decide_eq_true_eq]
      omega
    have hjoin : join (0xD800 + (code - 0x10000) / 0x400) (0xDC00 + (code - 0x10000) % 0x400) =
        code := by
      rw [join_halves rfl rfl, Nat.add_assoc, Nat.div_add_mod']
      exact Nat.add_sub_of_le (Nat.le_of_not_lt hcode)
    rw [if_neg hcode, decode_pair hhigh hlow, hjoin, decode]

/-! ### Sequences -/

/-- Whether a pair of halves is divided between two sequences. -/
def Divides (before after : List Nat) : Prop :=
  (∃ unit ∈ before.getLast?, isHigh unit = true) ∧ ∃ unit ∈ after.head?, isLow unit = true

theorem Divides.append {before after : List Nat} (h : Divides before after) (front : List Nat) :
    Divides (front ++ before) after := by
  obtain ⟨⟨high, hmem, hhigh⟩, hafter⟩ := h
  refine ⟨⟨high, ?_, hhigh⟩, hafter⟩
  rw [Option.mem_def] at hmem ⊢
  rw [List.getLast?_append, hmem]
  rfl

/-- What is not the high half of a pair is decoded by itself. -/
theorem decode_cons {unit : Nat} {rest : List Nat} (h : ¬ Divides [unit] rest) :
    decode (unit :: rest) = charOfCode unit :: decode rest := by
  cases rest with
  | nil => rfl
  | cons next rest =>
      refine if_neg fun hpair => h ?_
      rw [Bool.and_eq_true] at hpair
      exact ⟨⟨unit, rfl, hpair.1⟩, next, rfl, hpair.2⟩

/-- **Sequences that divide no pair are decoded one after the other.** -/
theorem decode_append {before after : List Nat} (h : ¬ Divides before after) :
    decode (before ++ after) = decode before ++ decode after := by
  induction before using decode.induct with
  | case1 => rfl
  | case2 unit => exact decode_cons h
  | case3 unit next rest hpair ih =>
      rw [List.cons_append, List.cons_append, decode, if_pos hpair, decode, if_pos hpair,
        ih fun hd => h (hd.append [unit, next]), List.cons_append]
  | case4 unit next rest hpair ih =>
      rw [List.cons_append, List.cons_append, decode, if_neg hpair, decode, if_neg hpair,
        ← List.cons_append, ih fun hd => h (hd.append [unit]), List.cons_append]

/-- A pair that is divided between two sequences is two characters in them and one in both together.
-/
theorem length_decode_divided {before after : List Nat} (h : Divides before after) :
    (decode (before ++ after)).length + 1 = (decode before).length + (decode after).length := by
  obtain ⟨⟨high, hlast, hhigh⟩, low, hfirst, hlow⟩ := h
  obtain ⟨before, rfl⟩ := List.getLast?_eq_some_iff.mp hlast
  obtain ⟨after, rfl⟩ := List.head?_eq_some_iff.mp hfirst
  -- a high half is no low half, so it is not taken by a pair with what stands before it
  have apart : ∀ rest, decode (before ++ high :: rest) = decode before ++ decode (high :: rest) := by
    refine fun rest => decode_append fun hd => ?_
    obtain ⟨unit, hunit, hl⟩ := hd.2
    cases hunit
    rw [not_isLow_of_isHigh hhigh] at hl
    cases hl
  have hafter : decode (low :: after) = charOfCode low :: decode after := by
    refine decode_cons fun hd => ?_
    obtain ⟨unit, hunit, hh⟩ := hd.1
    obtain rfl : low = unit := Option.some.inj hunit
    rw [not_isLow_of_isHigh hh] at hlow
    cases hlow
  rw [List.append_assoc, List.singleton_append, apart, apart, hafter, decode_pair hhigh hlow, decode]
  simp only [List.length_append, List.length_cons, List.length_nil]
  omega

theorem length_decode_append (before after : List Nat) :
    (decode (before ++ after)).length ≤ (decode before).length + (decode after).length := by
  by_cases h : Divides before after
  · have hlength := length_decode_divided h
    omega
  · exact Nat.le_of_eq (by rw [decode_append h, List.length_append])

theorem length_decode_flatten (groups : List (List Nat)) :
    (decode groups.flatten).length ≤ (groups.flatMap decode).length := by
  induction groups with
  | nil => exact Nat.le_refl _
  | cons group groups ih =>
      rw [List.flatten_cons, List.flatMap_cons, List.length_append]
      exact Nat.le_trans (length_decode_append _ _) (Nat.add_le_add_left ih _)

/-- Whether a pair of halves is divided between two groups. -/
def Divided (groups : List (List Nat)) : Prop :=
  ∃ before after, groups = before ++ after ∧ Divides before.flatten after.flatten

/-- **Groups are decoded one by one as all of them are together, unless a pair is divided.** -/
theorem flatMap_decode_iff (groups : List (List Nat)) :
    groups.flatMap decode = decode groups.flatten ↔ ¬ Divided groups := by
  constructor
  · -- one pair is lost between `before` and `after`, and no other pair is won
    rintro heq ⟨before, after, rfl, hdivides⟩
    have hless := length_decode_divided hdivides
    have hbefore := length_decode_flatten before
    have hafter := length_decode_flatten after
    have hlength := congrArg List.length heq
    rw [List.flatMap_append, List.length_append, List.flatten_append] at hlength
    omega
  · intro h
    induction groups with
    | nil => rfl
    | cons group groups ih =>
        have hgroups : ¬ Divided groups := by
          rintro ⟨before, after, rfl, hdivides⟩
          exact h ⟨group :: before, after, rfl, hdivides.append group⟩
        have hgroup : ¬ Divides group groups.flatten := fun hd =>
          h ⟨[group], groups, rfl, by simpa using hd⟩
        rw [List.flatMap_cons, List.flatten_cons, ih hgroups, decode_append hgroup]

end Stencil.Utf16
