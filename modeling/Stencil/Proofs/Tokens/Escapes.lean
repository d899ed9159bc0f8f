import Stencil.Proofs.Numbers.Digits
import Stencil.Proofs.Tokens.Spelled
import Stencil.Proofs.Tokens.Units

/-!
# Tokens — escapes

A string is written as characters and escapes, its parts, and each part stands for code units
(`StringPart.units`).  The text of the string should be these units decoded.  But the reader decodes
as it goes: it looks for the low half of a pair only when an escape of four digits has given it the
high half, and only in a second such escape right after.  So the parts are read in groups of one or
two (`groups`), and each group is decoded by itself (`readInGroups`).

**Strings** (`tokens_literal_iff`).  A string is read as its units decoded exactly if no pair is
divided between two groups, and no high half that looks for the other one stands before an escape in
braces, which cannot be read then.
-/

namespace Stencil.Script
open Text Utf16

/-! ### Parts of a string -/

/-- What stands between quotes: a character, or an escape. -/
inductive StringPart where
  | plain (c : Char)
  /-- A character after a backslash. -/
  | escaped (c : Char)
  /-- A zero after a backslash. -/
  | nul
  /-- Two hexadecimal digits after `\x`. -/
  | byte (digits : List Char)
  /-- Four hexadecimal digits after `\u`. -/
  | unit (digits : List Char)
  /-- Hexadecimal digits in braces after `\u`. -/
  | point (digits : List Char)
  /-- The end of a line after a backslash. -/
  | continuation (line : List Char)
  deriving DecidableEq, Repr

/-- How a part is written. -/
def StringPart.written : StringPart → List Char
  | .plain c => [c]
  | .escaped c => ['\\', c]
  | .nul => ['\\', '0']
  | .byte digits => '\\' :: 'x' :: digits
  | .unit digits => '\\' :: 'u' :: digits
  | .point digits => '\\' :: 'u' :: '\x7b' :: (digits ++ ['\x7d'])
  | .continuation line => '\\' :: line

/-- How parts are written. -/
def writtenParts (parts : List StringPart) : List Char :=
  parts.flatMap StringPart.written

/-- A string with its quotes. -/
def literal (quote : Char) (parts : List StringPart) : List Char :=
  quote :: (writtenParts parts ++ [quote])

/-- What a character after a backslash stands for. -/
def escapedChar : Char → Char
  | 'n' => '\n'
  | 'r' => '\r'
  | 't' => '\t'
  | 'b' => '\x08'
  | 'f' => '\x0c'
  | 'v' => '\x0b'
  | c => c

/-- The code units that a part stands for. -/
def StringPart.units : StringPart → List Nat
  | .plain c => encode c.toNat
  | .escaped c => encode (escapedChar c).toNat
  | .nul => [0]
  | .byte digits => [Number.value 16 digits]
  | .unit digits => [Number.value 16 digits]
  | .point digits => encode (Number.value 16 digits)
  | .continuation _ => []

/-- The code units that parts stand for. -/
def unitsOf (parts : List StringPart) : List Nat :=
  parts.flatMap StringPart.units

/-- Whether a text begins with a digit. -/
def beginsWithDigit (cs : List Char) : Bool :=
  (cs.head?.map Char.isDigit).getD false

/-- The ends of lines that a backslash can stand before. -/
def lineSequences : List (List Char) :=
  [['\n'], ['\r', '\n'], ['\r'], ['\u2028'], ['\u2029']]

/-- Whether a part is a character that may stand between the quotes, or an escape.  A zero after a
backslash stands for the character NUL unless another digit comes after it. -/
def StringPart.Valid (quote : Char) (after : List Char) : StringPart → Prop
  | .plain c => c ≠ quote ∧ c ∉ ['\\', '\n', '\r']
  | .escaped c => c ∉ ['x', 'u', '\n', '\r', '\u2028', '\u2029'] ∧
      (c = '0' → beginsWithDigit after = true)
  | .nul => beginsWithDigit after = false
  | .byte digits => digits.length = 2 ∧ digits.all Number.isHexDigit = true
  | .unit digits => digits.length = 4 ∧ digits.all Number.isHexDigit = true
  | .point digits => digits ≠ [] ∧ digits.all Number.isHexDigit = true ∧
      Number.value 16 digits ≤ 0x10FFFF
  | .continuation line => line ∈ lineSequences

/-- Whether all parts are valid where they stand. -/
def ValidParts (quote : Char) : List StringPart → Prop
  | [] => True
  | part :: rest => part.Valid quote (writtenParts rest) ∧ ValidParts quote rest

/-- Whether a part is four digits for the high half of a pair. -/
def StringPart.looksAhead : StringPart → Bool
  | .unit digits => isHigh (Number.value 16 digits)
  | _ => false

/-- Whether a part is an escape of four digits. -/
def StringPart.isUnit : StringPart → Bool
  | .unit _ => true
  | _ => false

/-- **What is decoded together**: four digits for a high half and four digits after them, and else
each part by itself. -/
def groups : List StringPart → List (List StringPart)
  | [] => []
  | [part] => [[part]]
  | part :: next :: rest =>
    if part.looksAhead && next.isUnit then [part, next] :: groups rest
    else [part] :: groups (next :: rest)

/-- Whether an escape in braces stands where the low half of a pair is looked for. -/
def Blocked (gs : List (List StringPart)) : Prop :=
  ∃ part digits, part.looksAhead = true ∧ [[part], [.point digits]] <:+: gs

/-! ### Digits -/

theorem readHexDigits_append {digits : List Char} (h : digits.all Number.isHexDigit = true)
    (x : List Char) (code : Nat) (p : Position) : ∃ q,
    readHexDigits digits.length code ⟨digits ++ x, p⟩ =
      .ok (digits.foldl (fun n c => n * 16 + (Number.digitValue? 16 c).getD 0) code, ⟨x, q⟩) := by
  induction digits generalizing code p with
  | nil => exact ⟨p, rfl⟩
  | cons c digits ih =>
      rw [List.all_cons, Bool.and_eq_true] at h
      obtain ⟨digit, hdigit⟩ := Option.isSome_iff_exists.mp h.1
      obtain ⟨q, hq⟩ := ih h.2 (code * 16 + digit) (p.after c (digits ++ x))
      refine ⟨q, ?_⟩
      simp only [List.length_cons, List.cons_append, readHexDigits, hdigit, List.foldl_cons,
        Option.getD_some, Cursor.past]
      exact hq

/-- **Hexadecimal digits** are read as what they are worth. -/
theorem readHexDigits_digits {digits : List Char} (h : digits.all Number.isHexDigit = true)
    (x : List Char) (p : Position) : ∃ q, readHexDigits digits.length 0 ⟨digits ++ x, p⟩ =
      .ok (Number.value 16 digits, ⟨x, q⟩) :=
  readHexDigits_append h x 0 p

theorem value_unit_lt {digits : List Char} (h : digits.length = 4) :
    Number.value 16 digits < 0x10000 := by
  have hlt := Number.value_lt (by decide : 0 < 16) digits
  rwa [h] at hlt

theorem characterOf_eq {code : Nat} (h : code ≤ 0x10FFFF) (p : Position) :
    characterOf code p = .ok (charOfCode code) := by
  rw [characterOf, if_neg (Nat.not_lt.mpr h), charOfCode]
  split <;> rfl

/-! ### Characters and code points -/

theorem toNat_le (c : Char) : c.toNat ≤ 0x10FFFF := by
  have hvalid : c.toNat.isValidChar := c.valid
  rcases hvalid with h | h
  · omega
  · omega

theorem decode_encode_char (c : Char) : decode (encode c.toNat) = [c] := by
  rw [decode_encode (toNat_le c), charOfCode_toNat]

theorem decide_high (code : Nat) : decide (0xD800 ≤ code ∧ code < 0xDC00) = isHigh code :=
  Bool.decide_and _ _

/-- Four digits that are no high half, or that no other escape of this kind comes after. -/
theorem readUnicodeEscape_alone {digits x : List Char} (hlength : digits.length = 4)
    (hdigits : digits.all Number.isHexDigit = true)
    (hapart : isHigh (Number.value 16 digits) = true → ∀ rest, x ≠ '\\' :: 'u' :: rest)
    (p : Position) : ∃ q, readUnicodeEscape ⟨digits ++ x, p⟩ =
      .ok ([charOfCode (Number.value 16 digits)], ⟨x, q⟩) := by
  obtain ⟨q, hq⟩ := readHexDigits_digits hdigits x p
  have hlt := value_unit_lt hlength
  rw [hlength] at hq
  refine ⟨q, (except_bind_of_ok hq _).trans ?_⟩
  dsimp only
  split
  · rename_i rest hhigh
    exact absurd rfl (hapart ((decide_high _).symm.trans hhigh) rest)
  · exact except_bind_of_ok (characterOf_eq (by omega) q) _

/-- Four digits for a high half, and four digits after them. -/
theorem readUnicodeEscape_pair {digits next x : List Char} (hlength : digits.length = 4)
    (hdigits : digits.all Number.isHexDigit = true) (hnext : next.length = 4)
    (hnextDigits : next.all Number.isHexDigit = true)
    (hhigh : isHigh (Number.value 16 digits) = true) (p : Position) :
    ∃ q, readUnicodeEscape ⟨digits ++ '\\' :: 'u' :: (next ++ x), p⟩ =
      .ok (decode [Number.value 16 digits, Number.value 16 next], ⟨x, q⟩) := by
  obtain ⟨mid, hmid⟩ := readHexDigits_digits hdigits ('\\' :: 'u' :: (next ++ x)) p
  obtain ⟨q, hq⟩ := readHexDigits_digits hnextDigits x (mid.along 2)
  have hlt := value_unit_lt hnext
  rw [hlength] at hmid
  rw [hnext] at hq
  refine ⟨q, (except_bind_of_ok hmid _).trans ?_⟩
  simp only [decide_high, hhigh]
  refine (except_bind_of_ok hq _).trans ?_
  have hlow : (0xDC00 ≤ Number.value 16 next ∧ Number.value 16 next < 0xE000) ↔
      isLow (Number.value 16 next) = true := by
    rw [isLow, Bool.and_eq_true, decide_eq_true_eq, decide_eq_true_eq]
  -- two halves join to a character, which is in range; otherwise each stands by itself
  by_cases hl : isLow (Number.value 16 next) = true
  · have hle : join (Number.value 16 digits) (Number.value 16 next) ≤ 0x10FFFF := by
      simp only [isHigh, isLow, Bool.and_eq_true, decide_eq_true_eq] at hhigh hl
      unfold join
      omega
    rw [decode_pair hhigh hl]
    exact (if_pos (hlow.mpr hl)).trans (except_bind_of_ok (characterOf_eq hle q) _)
  · have hapart : ¬ Divides [Number.value 16 digits] [Number.value 16 next] := by
      rintro ⟨-, unit, hunit, hu⟩
      cases hunit
      exact hl hu
    rw [decode_cons hapart, charOfCode_half (.inl hhigh)]
    exact (if_neg (mt hlow.mp hl)).trans (except_bind_of_ok (characterOf_eq (by omega) q) _)

/-- Four digits for a high half, and an escape in braces after them. -/
theorem readUnicodeEscape_blocked {digits x : List Char} (hlength : digits.length = 4)
    (hdigits : digits.all Number.isHexDigit = true)
    (hhigh : isHigh (Number.value 16 digits) = true) (p : Position) :
    ∃ q, readUnicodeEscape ⟨digits ++ '\\' :: 'u' :: '\x7b' :: x, p⟩ =
      .error ⟨.invalidHexEscape, q⟩ := by
  obtain ⟨mid, hmid⟩ := readHexDigits_digits hdigits ('\\' :: 'u' :: '\x7b' :: x) p
  rw [hlength] at hmid
  refine ⟨mid.along 2, (except_bind_of_ok hmid _).trans ?_⟩
  simp only [decide_high, hhigh]
  rfl

theorem readBracedEscape_point {digits x : List Char} (hne : digits ≠ [])
    (hdigits : digits.all Number.isHexDigit = true) (hcode : Number.value 16 digits ≤ 0x10FFFF)
    (p : Position) : ∃ q, readBracedEscape ⟨digits ++ '\x7d' :: x, p⟩ =
      .ok ([charOfCode (Number.value 16 digits)], ⟨x, q⟩) := by
  have hspan : (digits ++ '\x7d' :: x).takeWhile Number.isHexDigit = digits := by
    rw [List.takeWhile_append_of_pos (List.all_eq_true.mp hdigits),
      List.takeWhile_cons_of_neg (by decide), List.append_nil]
  refine ⟨(p.along digits.length).after '\x7d' x, ?_⟩
  simp only [readBracedEscape, hspan, Cursor.drop, List.drop_left, List.isEmpty_eq_false_iff.mpr hne]
  exact except_bind_of_ok (characterOf_eq hcode _) _

/-! ### One escape -/

theorem escapedChar_other {c : Char} (h : c ∉ ['n', 'r', 't', 'b', 'f', 'v']) :
    escapedChar c = c := by
  unfold escapedChar
  split <;> first | rfl | exact absurd (by simp) h

theorem readEscape_escaped {c : Char} {x : List Char}
    (h : c ∉ ['x', 'u', '\n', '\r', '\u2028', '\u2029'])
    (hzero : c = '0' → beginsWithDigit x = true) (p : Position) :
    readEscape ⟨c :: x, p⟩ = .ok ([escapedChar c], ⟨x, p.after c x⟩) := by
  by_cases hletter : c ∈ ['n', 'r', 't', 'b', 'f', 'v']
  · simp only [List.mem_cons, List.not_mem_nil, or_false] at hletter
    rcases hletter with rfl | rfl | rfl | rfl | rfl | rfl <;> rfl
  rw [escapedChar_other hletter]
  by_cases hc : c = '0'
  · subst hc
    exact if_pos (hzero rfl)
  simp only [List.mem_cons, List.not_mem_nil, or_false, not_or] at h hletter
  obtain ⟨hx, hu, hfeed, hreturn, hline, hparagraph⟩ := h
  obtain ⟨hn, hr, ht, hb, hf, hv⟩ := hletter
  simp only [readEscape]
  rfl

/-- Four digits after `\u` are no brace. -/
theorem readEscape_unit {digits : List Char} (hlength : digits.length = 4)
    (hdigits : digits.all Number.isHexDigit = true) (x : List Char) (p : Position) :
    readEscape ⟨'u' :: (digits ++ x), p⟩ =
      readUnicodeEscape ⟨digits ++ x, p.after 'u' (digits ++ x)⟩ := by
  cases digits with
  | nil => cases hlength
  | cons d digits =>
      have hd : d ≠ '\x7b' := by
        rintro rfl
        exact absurd (List.all_eq_true.mp hdigits _ List.mem_cons_self) (by decide)
      simp only [List.cons_append, readEscape]
      split
      · rename_i rest heq
        exact absurd (List.cons.inj heq).1 hd
      · rfl

/-- What an escape needs of the text after it: no second half where one is looked for, and no line
feed that would belong to a carriage return. -/
structure StringPart.Ends (part : StringPart) (x : List Char) : Prop where
  half : part.looksAhead = true → ∀ rest, x ≠ '\\' :: 'u' :: rest
  line : ∀ rest, x ≠ '\n' :: rest

/-- **An escape by itself.** -/
theorem readEscape_part {quote : Char} {part : StringPart} {l x : List Char}
    (hvalid : part.Valid quote x) (hl : part.written = '\\' :: l) (hends : part.Ends x)
    (p : Position) :
    ∃ q, readEscape ⟨l ++ x, p⟩ = .ok (decode part.units, ⟨x, q⟩) := by
  cases part with
  | plain c =>
      have hc : c = '\\' := (List.cons.inj hl).1
      exact absurd (by simp [hc]) hvalid.2
  | escaped c =>
      obtain rfl : [c] = l := (List.cons.inj hl).2
      refine ⟨p.after c x, ?_⟩
      rw [StringPart.units, decode_encode_char]
      exact readEscape_escaped hvalid.1 hvalid.2 p
  | nul =>
      obtain rfl : ['0'] = l := (List.cons.inj hl).2
      have hdigit : ¬ (x.head?.map Char.isDigit).getD false = true := by
        rw [show (x.head?.map Char.isDigit).getD false = false from hvalid]
        decide
      exact ⟨_, if_neg hdigit⟩
  | byte digits =>
      obtain rfl : 'x' :: digits = l := (List.cons.inj hl).2
      obtain ⟨q, hq⟩ := readHexDigits_digits hvalid.2 x (p.after 'x' (digits ++ x))
      have hlt := Number.value_lt (by decide : 0 < 16) digits
      rw [hvalid.1] at hq hlt
      exact ⟨q, (except_bind_of_ok hq _).trans
        (except_bind_of_ok (characterOf_eq (by omega) q) _)⟩
  | unit digits =>
      obtain rfl : 'u' :: digits = l := (List.cons.inj hl).2
      obtain ⟨q, hq⟩ := readUnicodeEscape_alone hvalid.1 hvalid.2 hends.half
        (p.after 'u' (digits ++ x))
      exact ⟨q, (readEscape_unit hvalid.1 hvalid.2 x p).trans hq⟩
  | point digits =>
      obtain rfl : 'u' :: '\x7b' :: (digits ++ ['\x7d']) = l := (List.cons.inj hl).2
      obtain ⟨q, hq⟩ := readBracedEscape_point hvalid.1 hvalid.2.1 hvalid.2.2
        ((p.after 'u' ('\x7b' :: (digits ++ '\x7d' :: x))).after '\x7b' (digits ++ '\x7d' :: x))
      refine ⟨q, ?_⟩
      rw [StringPart.units, decode_encode hvalid.2.2]
      simp only [List.cons_append, List.append_assoc, List.nil_append, readEscape]
      exact hq
  | continuation line =>
      obtain rfl : line = l := (List.cons.inj hl).2
      simp only [StringPart.Valid, lineSequences, List.mem_cons, List.not_mem_nil, or_false]
        at hvalid
      rcases hvalid with rfl | rfl | rfl | rfl | rfl
      · exact ⟨_, rfl⟩
      · exact ⟨_, rfl⟩
      · -- a line feed after a carriage return would be taken with it
        refine ⟨p.after '\r' x, ?_⟩
        simp only [List.cons_append, List.nil_append, readEscape]
        split
        · rename_i rest
          exact absurd rfl (hends.line rest)
        · rfl
      · exact ⟨_, rfl⟩
      · exact ⟨_, rfl⟩

/-! ### Groups -/

theorem groups_cons {part : StringPart} {rest : List StringPart}
    (h : part.looksAhead = true → ∀ next ∈ rest.head?, next.isUnit = false) :
    groups (part :: rest) = [part] :: groups rest := by
  cases rest with
  | nil => rfl
  | cons next rest =>
      refine if_neg fun hpair => ?_
      rw [Bool.and_eq_true] at hpair
      rw [h hpair.1 next rfl] at hpair
      cases hpair.2

theorem groups_pair {part next : StringPart} (h : part.looksAhead = true)
    (hnext : next.isUnit = true) (rest : List StringPart) :
    groups (part :: next :: rest) = [part, next] :: groups rest :=
  if_pos (by rw [h, hnext, Bool.and_true])

theorem flatten_groups (parts : List StringPart) : (groups parts).flatten = parts := by
  induction parts using groups.induct with
  | case1 => rfl
  | case2 part => rfl
  | case3 part next rest hpair ih =>
      rw [groups, if_pos hpair, List.flatten_cons, ih]
      rfl
  | case4 part next rest hpair ih =>
      rw [groups, if_neg hpair, List.flatten_cons, ih]
      rfl

theorem flatten_map_unitsOf (gs : List (List StringPart)) :
    (gs.map unitsOf).flatten = unitsOf gs.flatten := by
  induction gs with
  | nil => rfl
  | cons g gs ih =>
      rw [List.map_cons, List.flatten_cons, List.flatten_cons, ih, unitsOf, unitsOf, unitsOf,
        List.flatMap_append]

/-- An escape in braces is a group by itself. -/
theorem head_groups {digits : List Char} {parts : List StringPart} {gs : List (List StringPart)}
    (h : groups parts = [.point digits] :: gs) : ∃ rest, parts = .point digits :: rest := by
  have hflat := flatten_groups parts
  rw [h, List.flatten_cons, List.singleton_append] at hflat
  exact ⟨_, hflat.symm⟩

theorem blocked_cons {part : StringPart} {gs : List (List StringPart)} : Blocked ([part] :: gs) ↔
    (part.looksAhead = true ∧ ∃ digits more, gs = [.point digits] :: more) ∨ Blocked gs := by
  constructor
  · rintro ⟨high, digits, hhigh, hinfix⟩
    rcases List.infix_cons_iff.mp hinfix with ⟨more, hprefix⟩ | hinfix
    · obtain ⟨hpart, hgs⟩ := List.cons.inj hprefix
      cases hpart
      exact .inl ⟨hhigh, digits, more, hgs.symm⟩
    · exact .inr ⟨high, digits, hhigh, hinfix⟩
  · rintro (⟨hhigh, digits, more, rfl⟩ | ⟨high, digits, hhigh, hinfix⟩)
    · exact ⟨part, digits, hhigh, [], more, rfl⟩
    · exact ⟨high, digits, hhigh, List.infix_cons_iff.mpr (.inr hinfix)⟩

theorem blocked_cons_pair {part next : StringPart} {gs : List (List StringPart)} :
    Blocked ([part, next] :: gs) ↔ Blocked gs := by
  constructor
  · rintro ⟨high, digits, hhigh, hinfix⟩
    rcases List.infix_cons_iff.mp hinfix with ⟨more, hprefix⟩ | hinfix
    · cases (List.cons.inj hprefix).1
    · exact ⟨high, digits, hhigh, hinfix⟩
  · rintro ⟨high, digits, hhigh, hinfix⟩
    exact ⟨high, digits, hhigh, List.infix_cons_iff.mpr (.inr hinfix)⟩

/-! ### The text after a part -/

section
variable {quote : Char} (hquote : quote = '\'' ∨ quote = '"')
include hquote

theorem beginsWithDigit_append (cs rest : List Char) :
    beginsWithDigit (cs ++ quote :: rest) = beginsWithDigit cs := by
  cases cs with
  | nil => rcases hquote with rfl | rfl <;> rfl
  | cons c cs => rfl

theorem StringPart.Valid.append {part : StringPart} {after : List Char} (h : part.Valid quote after)
    (rest : List Char) : part.Valid quote (after ++ quote :: rest) := by
  cases part with
  | escaped c => exact ⟨h.1, fun hc => (beginsWithDigit_append hquote after rest).trans (h.2 hc)⟩
  | nul => exact (beginsWithDigit_append hquote after rest).trans h
  | _ => exact h

/-- No part begins with a line feed. -/
theorem ValidParts.not_line {parts : List StringPart} (h : ValidParts quote parts)
    (rest t : List Char) : writtenParts parts ++ quote :: rest ≠ '\n' :: t := by
  intro heq
  cases parts with
  | nil =>
      have hfeed : quote = '\n' := (List.cons.inj heq).1
      rcases hquote with rfl | rfl <;> cases hfeed
  | cons part parts =>
      cases part with
      | plain c =>
          have hfeed : c = '\n' := (List.cons.inj heq).1
          exact absurd (by simp [hfeed]) h.1.2
      | _ => cases (List.cons.inj heq).1

/-- What begins as an escape for a second half does is one, or an escape in braces. -/
theorem ValidParts.half {parts : List StringPart} (h : ValidParts quote parts) {rest t : List Char}
    (heq : writtenParts parts ++ quote :: rest = '\\' :: 'u' :: t) :
    ∃ next more, parts = next :: more ∧ (next.isUnit = true ∨ ∃ digits, next = .point digits) := by
  cases parts with
  | nil =>
      have hslash : quote = '\\' := (List.cons.inj heq).1
      rcases hquote with rfl | rfl <;> cases hslash
  | cons part parts =>
      refine ⟨part, parts, rfl, ?_⟩
      have hvalid := h.1
      cases part with
      | plain c =>
          have hslash : c = '\\' := (List.cons.inj heq).1
          exact absurd (by simp [hslash]) hvalid.2
      | escaped c =>
          have hu : c = 'u' := (List.cons.inj (List.cons.inj heq).2).1
          exact absurd (by simp [hu]) hvalid.1
      | nul => cases (List.cons.inj (List.cons.inj heq).2).1
      | byte digits => cases (List.cons.inj (List.cons.inj heq).2).1
      | unit digits => exact .inl rfl
      | point digits => exact .inr ⟨digits, rfl⟩
      | continuation line =>
          simp only [StringPart.Valid, lineSequences, List.mem_cons, List.not_mem_nil, or_false]
            at hvalid
          rcases hvalid with rfl | rfl | rfl | rfl | rfl <;>
            cases (List.cons.inj (List.cons.inj heq).2).1

end

/-! ### Parts one after the other -/

/-- What is read of valid parts and the quote after them: each group decoded by itself, unless one
is blocked. -/
def ReadInGroups (quote : Char) (parts : List StringPart) : Prop :=
  ∀ (rest : List Char) (bound : Nat), parts.length < bound → ∀ (done : List Char) (p : Position),
    (Blocked (groups parts) →
      ∃ e, readQuoted quote bound done ⟨writtenParts parts ++ quote :: rest, p⟩ = .error e) ∧
    (¬ Blocked (groups parts) →
      ∃ q, readQuoted quote bound done ⟨writtenParts parts ++ quote :: rest, p⟩ =
        .ok (String.ofList (done.reverse ++ ((groups parts).map unitsOf).flatMap decode), ⟨rest, q⟩))

theorem ReadInGroups.nil (quote : Char) : ReadInGroups quote [] := by
  intro rest bound hb done p
  obtain ⟨bound, rfl⟩ : ∃ b, bound = b + 1 := ⟨bound - 1, by omega⟩
  constructor
  · rintro ⟨part, digits, -, hinfix⟩
    cases List.infix_nil.mp hinfix
  · intro _
    refine ⟨p.after quote rest, ?_⟩
    rw [show done.reverse ++ ((groups []).map unitsOf).flatMap decode = done.reverse from
      List.append_nil _]
    rw [readQuoted]
    exact if_pos (beq_self_eq_true quote)

section
variable {quote : Char} (hquote : quote = '\'' ∨ quote = '"')
include hquote

theorem readQuoted_backslash (bound : Nat) (done cs : List Char) (p : Position) :
    readQuoted quote (bound + 1) done ⟨'\\' :: cs, p⟩ =
      match readEscape ⟨cs, p.after '\\' cs⟩ with
      | .ok (characters, cursor) => readQuoted quote bound (characters.reverse ++ done) cursor
      | .error e => .error e := by
  rcases hquote with rfl | rfl <;> rfl

/-- **A part that is decoded by itself.** -/
theorem readQuoted_part {part : StringPart} {x : List Char} (hvalid : part.Valid quote x)
    (hends : part.Ends x) (bound : Nat) (done : List Char) (p : Position) :
    ∃ q, readQuoted quote (bound + 1) done ⟨part.written ++ x, p⟩ =
      readQuoted quote bound ((decode part.units).reverse ++ done) ⟨x, q⟩ := by
  have escape : ∀ {l}, part.written = '\\' :: l → ∃ q,
      readQuoted quote (bound + 1) done ⟨part.written ++ x, p⟩ =
        readQuoted quote bound ((decode part.units).reverse ++ done) ⟨x, q⟩ := by
    intro l hl
    obtain ⟨q, hq⟩ := readEscape_part hvalid hl hends (p.after '\\' (l ++ x))
    exact ⟨q, by rw [hl, List.cons_append, readQuoted_backslash hquote, hq]⟩
  cases part with
  | plain c =>
      obtain ⟨hc, hother⟩ := hvalid
      simp only [List.mem_cons, List.not_mem_nil, or_false, not_or] at hother
      refine ⟨p.after c x, ?_⟩
      simp only [StringPart.written, StringPart.units, decode_encode_char, List.cons_append,
        List.nil_append, readQuoted, Cursor.past, beq_eq_false_iff_ne.mpr hc,
        beq_eq_false_iff_ne.mpr hother.1, beq_eq_false_iff_ne.mpr hother.2.1,
        beq_eq_false_iff_ne.mpr hother.2.2]
      rfl
  | _ => exact escape rfl

/-- **Two escapes of four digits that are decoded together.** -/
theorem readQuoted_pair {digits next x : List Char}
    (hvalid : (StringPart.unit digits).Valid quote (StringPart.unit next).written)
    (hnext : (StringPart.unit next).Valid quote x)
    (hhigh : (StringPart.unit digits).looksAhead = true)
    (bound : Nat) (done : List Char) (p : Position) :
    ∃ q, readQuoted quote (bound + 1) done
        ⟨(StringPart.unit digits).written ++ ((StringPart.unit next).written ++ x), p⟩ =
      readQuoted quote bound ((decode (unitsOf [.unit digits, .unit next])).reverse ++ done)
        ⟨x, q⟩ := by
  obtain ⟨q, hq⟩ := @readUnicodeEscape_pair digits next x hvalid.1 hvalid.2 hnext.1 hnext.2 hhigh
    ((p.after '\\' ('u' :: (digits ++ '\\' :: 'u' :: (next ++ x)))).after 'u'
      (digits ++ '\\' :: 'u' :: (next ++ x)))
  refine ⟨q, ?_⟩
  simp only [StringPart.written, List.cons_append]
  rw [readQuoted_backslash hquote, readEscape_unit hvalid.1 hvalid.2, hq]
  rfl

/-- **Four digits before an escape in braces.** -/
theorem readQuoted_blocked {digits x : List Char} {after : List Char}
    (hvalid : (StringPart.unit digits).Valid quote after)
    (hhigh : (StringPart.unit digits).looksAhead = true)
    (bound : Nat) (done : List Char) (p : Position) :
    ∃ e, readQuoted quote (bound + 1) done
      ⟨(StringPart.unit digits).written ++ '\\' :: 'u' :: '\x7b' :: x, p⟩ = .error e := by
  obtain ⟨q, hq⟩ := @readUnicodeEscape_blocked digits x hvalid.1 hvalid.2 hhigh
    ((p.after '\\' ('u' :: (digits ++ '\\' :: 'u' :: '\x7b' :: x))).after 'u'
      (digits ++ '\\' :: 'u' :: '\x7b' :: x))
  refine ⟨⟨.invalidHexEscape, q⟩, ?_⟩
  simp only [StringPart.written, List.cons_append]
  rw [readQuoted_backslash hquote, readEscape_unit hvalid.1 hvalid.2, hq]

theorem ReadInGroups.single {part : StringPart} {parts : List StringPart}
    (h : ValidParts quote (part :: parts))
    (halone : part.looksAhead = true → ∀ next ∈ parts.head?, next.isUnit = false)
    (ih : ReadInGroups quote parts) : ReadInGroups quote (part :: parts) := by
  intro rest bound hb done p
  obtain ⟨bound, rfl⟩ : ∃ b, bound = b + 1 := ⟨bound - 1, by omega⟩
  have hb : parts.length < bound := Nat.lt_of_succ_lt_succ hb
  rw [groups_cons halone, blocked_cons, writtenParts, List.flatMap_cons, ← writtenParts,
    List.append_assoc]
  by_cases hblock : part.looksAhead = true ∧ ∃ digits more, groups parts = [.point digits] :: more
  · -- the second half is looked for in the braces
    obtain ⟨hhigh, digits, more, hgroups⟩ := hblock
    refine ⟨fun _ => ?_, fun hopen => absurd (.inl ⟨hhigh, digits, more, hgroups⟩) hopen⟩
    obtain ⟨others, rfl⟩ := head_groups hgroups
    cases part with
    | unit high =>
        rw [writtenParts, List.flatMap_cons, List.append_assoc]
        exact readQuoted_blocked hquote h.1 hhigh bound done p
    | _ => cases hhigh
  · have hends : part.Ends (writtenParts parts ++ quote :: rest) := by
      refine ⟨fun hhigh t heq => ?_, fun t => h.2.not_line hquote rest t⟩
      obtain ⟨next, more, rfl, hnext | ⟨digits, rfl⟩⟩ := h.2.half hquote heq
      · exact absurd hnext (by rw [halone hhigh next rfl]; decide)
      · exact hblock ⟨hhigh, digits, groups more, groups_cons nofun⟩
    obtain ⟨q, hq⟩ := readQuoted_part hquote (h.1.append hquote rest) hends bound done p
    obtain ⟨herror, hok⟩ := ih rest bound hb ((decode part.units).reverse ++ done) q
    rw [hq, or_iff_right hblock]
    refine ⟨herror, fun hopen => ?_⟩
    obtain ⟨q', hq'⟩ := hok hopen
    refine ⟨q', hq'.trans ?_⟩
    simp [unitsOf]

theorem ReadInGroups.pair {part next : StringPart} {parts : List StringPart}
    (h : ValidParts quote (part :: next :: parts)) (hhigh : part.looksAhead = true)
    (hnext : next.isUnit = true) (ih : ReadInGroups quote parts) :
    ReadInGroups quote (part :: next :: parts) := by
  intro rest bound hb done p
  obtain ⟨bound, rfl⟩ : ∃ b, bound = b + 1 := ⟨bound - 1, by omega⟩
  simp only [List.length_cons] at hb
  cases part with
  | unit digits =>
      cases next with
      | unit digits' =>
          obtain ⟨q, hq⟩ := @readQuoted_pair _ hquote digits digits'
            (writtenParts parts ++ quote :: rest) h.1 h.2.1 hhigh bound done p
          obtain ⟨herror, hok⟩ := ih rest bound (by omega)
            ((decode (unitsOf [.unit digits, .unit digits'])).reverse ++ done) q
          have hwritten : writtenParts (.unit digits :: .unit digits' :: parts) ++ quote :: rest =
              (StringPart.unit digits).written ++ ((StringPart.unit digits').written ++
                (writtenParts parts ++ quote :: rest)) := by
            simp [writtenParts]
          rw [groups_pair hhigh rfl, blocked_cons_pair, hwritten, hq]
          refine ⟨herror, fun hopen => ?_⟩
          obtain ⟨q', hq'⟩ := hok hopen
          refine ⟨q', hq'.trans ?_⟩
          simp
      | _ => cases hnext
  | _ => cases hhigh

/-- **Groups are read one by one.** -/
theorem readInGroups {parts : List StringPart} (h : ValidParts quote parts) :
    ReadInGroups quote parts := by
  -- the cases are those of `groups`, which takes the parts as the reader does
  induction parts using groups.induct with
  | case1 => exact .nil quote
  | case2 part => exact .single hquote h nofun (.nil quote)
  | case3 part next rest hpair ih =>
      rw [Bool.and_eq_true] at hpair
      exact .pair hquote h hpair.1 hpair.2 (ih h.2.2)
  | case4 part next rest hpair ih =>
      refine .single hquote h (fun hhigh other hother => ?_) (ih h.2)
      cases hother
      simpa [hhigh] using hpair

/-- **A string by itself** is refused if an escape in it is blocked, and otherwise it is its groups
decoded one by one. -/
theorem tokens_literal {parts : List StringPart} (h : ValidParts quote parts) :
    (Blocked (groups parts) → ∃ e, tokens (String.ofList (literal quote parts)) = .error e) ∧
    (¬ Blocked (groups parts) → ∃ ts, tokens (String.ofList (literal quote parts)) = .ok ts ∧
      ts.map Token.mark =
        [(.string (String.ofList (((groups parts).map unitsOf).flatMap decode)), false),
          (.stop, false)]) := by
  have hlength : ∀ {parts : List StringPart}, parts.length ≤ (writtenParts parts).length := by
    intro parts
    induction parts with
    | nil => exact Nat.le_refl _
    | cons part parts ih =>
        have hpart : 1 ≤ part.written.length := by
          cases part <;> simp [StringPart.written]
        rw [writtenParts, List.flatMap_cons, ← writtenParts, List.length_append, List.length_cons]
        omega
  have hread := readInGroups hquote h [] ((writtenParts parts ++ [quote]).length + 1)
    (by have := @hlength parts; rw [List.length_append]; omega) []
  constructor
  · intro hblocked
    obtain ⟨e, he⟩ := (hread (Position.start.after quote (writtenParts parts ++ [quote]))).1 hblocked
    refine ⟨e, ?_⟩
    have htoken : readToken ⟨literal quote parts, .start⟩ = .error e := by
      rw [literal, readToken_quote hquote, readString, he]
      rfl
    have hskip : skipGap .blanks false .start (literal quote parts) =
        .ok (false, ⟨literal quote parts, .start⟩) := skipGap_quote hquote _ _ _
    simp only [tokens, Cursor.start, String.toList_ofList, readTokens, hskip, htoken]
  · intro hopen
    have hnext : Next (literal quote parts)
        (.string (String.ofList (((groups parts).map unitsOf).flatMap decode)), false) [] := by
      intro p
      obtain ⟨q, hq⟩ := (hread (p.after quote (writtenParts parts ++ [quote]))).2 hopen
      refine ⟨_, p, q, skipGap_quote hquote _ _ p, ?_⟩
      rw [readToken_quote hquote]
      exact except_bind_of_ok hq _
    rw [← @String.toList_ofList (literal quote parts)] at hnext
    exact tokens_of_next hnext rfl

end

/-- **Strings.**  A string is read as the text of its code units, with each pair of halves joined
and U+FFFD for each half that is alone, exactly if no escape of it is blocked and no pair is
divided. -/
theorem tokens_literal_iff {quote : Char} {parts : List StringPart}
    (hquote : quote = '\'' ∨ quote = '"') (h : ValidParts quote parts) :
    (∃ ts, tokens (String.ofList (literal quote parts)) = .ok ts ∧
      ts.map Token.mark = [(.string (String.ofList (decode (unitsOf parts))), false),
        (.stop, false)]) ↔
    ¬ Blocked (groups parts) ∧ ¬ Divided ((groups parts).map unitsOf) := by
  have hflat : ((groups parts).map unitsOf).flatten = unitsOf parts := by
    rw [flatten_map_unitsOf, flatten_groups]
  have hdecode := flatMap_decode_iff ((groups parts).map unitsOf)
  rw [hflat] at hdecode
  obtain ⟨hblocked, hopen⟩ := tokens_literal hquote h
  constructor
  · rintro ⟨ts, hts, hmarks⟩
    have hnot : ¬ Blocked (groups parts) := by
      intro hb
      obtain ⟨e, he⟩ := hblocked hb
      rw [he] at hts
      cases hts
    obtain ⟨ts', hts', hmarks'⟩ := hopen hnot
    rw [hts] at hts'
    cases hts'
    rw [hmarks] at hmarks'
    -- the string is the groups decoded one by one, and by assumption all units decoded together
    have hkind := congrArg Prod.fst (List.cons.inj hmarks').1
    have hvalue := TokenKind.string.inj hkind
    exact ⟨hnot, hdecode.mp (String.ofList_injective hvalue).symm⟩
  · rintro ⟨hnot, hdivided⟩
    obtain ⟨ts, hts, hmarks⟩ := hopen hnot
    exact ⟨ts, hts, by rw [hmarks, hdecode.mpr hdivided]⟩

/-- Two halves in four digits each are joined.  A high half before an escape in braces is not read.
-/
theorem tokens_literal_halves :
    (∃ ts, tokens (String.ofList (literal '\'' [.unit "D83D".toList, .unit "DE00".toList])) = .ok ts ∧
      ts.map Token.mark = [(.string "😀", false), (.stop, false)]) ∧
    ¬ ∃ ts, tokens (String.ofList (literal '\'' [.unit "D800".toList, .point "41".toList])) = .ok ts ∧
      ts.map Token.mark = [(.string "\ufffdA", false), (.stop, false)] := by
  have hpair : ValidParts '\'' [.unit "D83D".toList, .unit "DE00".toList] :=
    ⟨⟨rfl, by decide⟩, ⟨rfl, by decide⟩, trivial⟩
  have hbraces : ValidParts '\'' [.unit "D800".toList, .point "41".toList] :=
    ⟨⟨rfl, by decide⟩, ⟨by decide, by decide, by decide⟩, trivial⟩
  constructor
  · refine (tokens_literal_iff (.inl rfl) hpair).mpr ⟨?_, (flatMap_decode_iff _).mp (by decide)⟩
    rintro ⟨part, digits, -, hinfix⟩
    exact absurd (show 2 ≤ 1 from hinfix.length_le) (by decide)
  · intro h
    have hopen := ((tokens_literal_iff (.inl rfl) hbraces).mp h).1
    exact hopen ⟨_, _, by decide, List.infix_refl _⟩

end Stencil.Script
