import Stencil.Proofs.Numbers.Texts

/-!
# Numbers — the two readers

A text becomes a number in two ways: a script that makes a number of the text reads it, and so does a
program in which the text stands.  The texts of numbers (`NumberText`) are the same for both, with two
exceptions.  For a script a plus sign may stand before hexadecimal digits, which no program has; and a byte
order mark after a number is a gap for a program, but no blank for a script.

**One number** (`textNumber_eq_iff`).  A text that begins with a digit or a point, without blanks and
comments, is a number for a script if and only if it is this number and nothing else in a program, but
for these exceptions.
-/

namespace Stencil.Script
open Stencil.Text

/-- Hexadecimal digits after a plus sign. -/
def SignedHexadecimal (cs : List Char) (value : Float) : Prop :=
  ∃ mark digits n, cs = '0' :: mark :: '+' :: digits ∧ (mark = 'x' ∨ mark = 'X') ∧
    Number.value? 16 digits = some n ∧ n < UInt64.size ∧ value = Number.ofNat n

/-- A comment opens where no quote stands before it. -/
def Commented (cs : List Char) : Prop :=
  ∃ before mark rest, cs = before ++ '/' :: mark :: rest ∧ (mark = '/' ∨ mark = '*') ∧
    ∀ c ∈ before, c ≠ '\'' ∧ c ≠ '"'

theorem not_isNaN_of_rounded {value : Float} (h : Number.Rounded value) : value.isNaN = false := by
  rcases h with ⟨hfinite, -⟩ | rfl
  · exact Number.not_isNaN_of_isFinite hfinite
  · decide +kernel

theorem NumberText.plain {cs : List Char} {value : Float} (h : NumberText cs value) :
    ∀ c ∈ cs, c ≠ '\'' ∧ c ≠ '"' ∧ c ≠ '\ufeff' := by
  refine h.forall (fun c hc => ?_) (fun c hc => ?_) (forall_of_all (by decide)) <;>
    refine ⟨?_, ?_, ?_⟩ <;> rintro rfl <;> exact absurd hc (by decide)

/-! ### Read by a script -/

theorem hexNumber_unsigned {digits : List Char} (h : ∀ more, digits ≠ '+' :: more) :
    hexNumber digits = (Number.value? 16 digits).elim Number.nan fun n =>
      if n < UInt64.size then Number.ofNat n else Number.nan := by
  simp only [hexNumber]
  cases Number.value? 16 digits <;> rfl

theorem hexNumber_plus (digits : List Char) :
    hexNumber ('+' :: digits) = (Number.value? 16 digits).elim Number.nan fun n =>
      if n < UInt64.size then Number.ofNat n else Number.nan := by
  simp only [hexNumber]
  cases Number.value? 16 digits <;> rfl

theorem hexNumber_of_value? {digits : List Char} {n : ℕ} (h : Number.value? 16 digits = some n)
    (hsize : n < UInt64.size) : hexNumber digits = Number.ofNat n := by
  have hplus : ∀ more, digits ≠ '+' :: more := by
    rintro more rfl
    exact absurd ((Number.value?_eq_some_iff.mp h).2.1 '+' List.mem_cons_self) (by decide)
  rw [hexNumber_unsigned hplus, h, Option.elim_some, if_pos hsize]

/-- What is read as hexadecimal digits are such digits, perhaps after a plus sign. -/
theorem value?_of_hexNumber {digits : List Char} (h : (hexNumber digits).isNaN = false) :
    ∃ n, n < UInt64.size ∧ hexNumber digits = Number.ofNat n ∧ (Number.value? 16 digits = some n ∨
      ∃ more, digits = '+' :: more ∧ Number.value? 16 more = some n) := by
  have read : ∀ {l : List Char}, hexNumber digits = ((Number.value? 16 l).elim Number.nan fun n =>
      if n < UInt64.size then Number.ofNat n else Number.nan) → ∃ n, n < UInt64.size ∧
        hexNumber digits = Number.ofNat n ∧ Number.value? 16 l = some n := by
    intro l heq
    cases hn : Number.value? 16 l with
    | none =>
        rw [heq, hn] at h
        exact absurd h (by decide)
    | some n =>
        rw [hn, Option.elim_some] at heq
        by_cases hsize : n < UInt64.size
        · exact ⟨n, hsize, by rw [heq, if_pos hsize], rfl⟩
        · rw [heq, if_neg hsize] at h
          exact absurd h (by decide)
  by_cases hplus : ∃ more, digits = '+' :: more
  · obtain ⟨more, rfl⟩ := hplus
    obtain ⟨n, hsize, heq, hn⟩ := read (hexNumber_plus more)
    exact ⟨n, hsize, heq, .inr ⟨more, rfl, hn⟩⟩
  · obtain ⟨n, hsize, heq, hn⟩ := read (hexNumber_unsigned fun more h => hplus ⟨more, h⟩)
    exact ⟨n, hsize, heq, .inl hn⟩

section

variable {source : String} {value : Float} {c : Char} {rest : List Char}

/-- **The text of a number is this number for a script.** -/
theorem textNumber_of_numberText (h : NumberText source.toList value) : textNumber source = value := by
  have hblank : ∀ c ∈ source.toList, isBlank c = false := by
    refine h.forall (fun c hc => ?_) (fun c hc => ?_) (forall_of_all (by decide +kernel))
    · exact @not_isBlank Char.isDigit (by decide +kernel) _ hc
    · exact not_isBlank (by decide +kernel) hc
  generalize hcs : source.toList = cs at h hblank
  cases h with
  | decimal h =>
      obtain ⟨hall, c, rest, rfl, hc⟩ := numeralPart_of_unsigned? h
      refine Number.textNumber_of_signed (by simp [hcs]) ?_ ?_
      · rw [hcs, ← hall]
        exact forall_numeralPart (fun c hc => by simp [isNumeralChar, hc])
          (forall_of_all (by decide)) _
      · rw [hcs, Number.signed?_cons (hc.imp id And.left), h]
  | @hexadecimal mark digits n hmark hvalue hsize =>
      rw [textNumber, hcs, Number.trimChars_of_forall hblank]
      rcases hmark with rfl | rfl
      · exact hexNumber_of_value? hvalue hsize
      · exact hexNumber_of_value? hvalue hsize

theorem textNumber_of_signedHexadecimal (hblank : ∀ c ∈ source.toList, isBlank c = false)
    (h : SignedHexadecimal source.toList value) : textNumber source = value := by
  obtain ⟨mark, digits, n, hcs, hmark, hn, hsize, rfl⟩ := h
  have hread : hexNumber ('+' :: digits) = Number.ofNat n := by
    rw [hexNumber_plus, hn, Option.elim_some, if_pos hsize]
  rw [textNumber, Number.trimChars_of_forall hblank, hcs]
  rcases hmark with rfl | rfl
  · exact hread
  · exact hread

/-- What is a number for a script is the text of one, or has a plus sign. -/
theorem numberText_of_textNumber (hsource : source.toList = c :: rest)
    (hc : c.isDigit = true ∨ c = '.') (hblank : ∀ c ∈ source.toList, isBlank c = false)
    (h : textNumber source = value) (hvalue : value.isNaN = false) :
    NumberText source.toList value ∨ SignedHexadecimal source.toList value := by
  have hexadecimal : ∀ {mark : Char} {digits : List Char}, mark = 'x' ∨ mark = 'X' →
      hexNumber digits = value →
      NumberText ('0' :: mark :: digits) value ∨ SignedHexadecimal ('0' :: mark :: digits) value := by
    rintro mark digits hmark rfl
    obtain ⟨n, hsize, heq, hn | ⟨more, rfl, hn⟩⟩ := value?_of_hexNumber hvalue
    · exact .inl (heq ▸ .hexadecimal hmark hn hsize)
    · exact .inr ⟨mark, more, n, rfl, hmark, hn, hsize, heq⟩
  -- the words for infinity begin with a letter or a sign, and this text does not
  have hword : ∀ {word : String} {d : Char}, word.toList.head? = some d →
      (d.isDigit || d == '.') = false → (source.toList == word.toList) = false := by
    intro word d hhead hd
    refine beq_eq_false_iff_ne.mpr fun heq => ?_
    rw [← heq, hsource] at hhead
    cases hhead
    simp_all
  rw [textNumber, Number.trimChars_of_forall hblank] at h
  split at h
  · rename_i hnil
    rw [hsource] at hnil
    cases hnil
  · rename_i digits heq
    rw [heq]
    exact hexadecimal (.inl rfl) h
  · rename_i digits heq
    rw [heq]
    exact hexadecimal (.inr rfl) h
  · rw [hword rfl (by decide), hword rfl (by decide), hword rfl (by decide)] at h
    simp only [Bool.or_false, Bool.false_eq_true, if_false] at h
    split at h
    · rw [hsource, Number.signed?_cons hc, ← hsource] at h
      cases hunsigned : Number.unsigned? source.toList with
      | none =>
          rw [hunsigned] at h
          exact absurd hvalue (h ▸ by decide)
      | some x =>
          rw [hunsigned] at h
          exact .inl (.decimal (hunsigned.trans (congrArg some h)))
    · exact absurd hvalue (h ▸ by decide)

/-- **Numbers for a script.** -/
theorem textNumber_iff_numberText (hsource : source.toList = c :: rest)
    (hc : c.isDigit = true ∨ c = '.') (hblank : ∀ c ∈ source.toList, isBlank c = false) :
    textNumber source = value ∧ value.isNaN = false ↔
      NumberText source.toList value ∨ SignedHexadecimal source.toList value := by
  constructor
  · rintro ⟨h, hvalue⟩
    exact numberText_of_textNumber hsource hc hblank h hvalue
  · rintro (h | h)
    · exact ⟨textNumber_of_numberText h, not_isNaN_of_rounded h.rounded⟩
    · refine ⟨textNumber_of_signedHexadecimal hblank h, ?_⟩
      obtain ⟨_, _, n, -, -, -, -, rfl⟩ := h
      exact not_isNaN_of_rounded (Number.nearest_rounded n 1)

/-! ### Read by a program -/

theorem kinds_of_numberText (h : NumberText source.toList value) :
    ∃ ts, tokens source = .ok ts ∧ ts.map Token.kind = [.number value, .stop] := by
  obtain ⟨ts, hts, hmarks⟩ := tokens_of_next h.next rfl
  refine ⟨ts, hts, ?_⟩
  have hkinds := congrArg (List.map Prod.fst) hmarks
  simpa [Function.comp_def, Token.mark] using hkinds

/-- What is left of a text, if it begins with no blank, begins with a comment. -/
theorem Over.opens {c : Char} {rest : List Char} {newline : Bool} (h : Over (c :: rest) newline)
    (hblank : isBlank c = false) (hmark : c ≠ '\ufeff') :
    ∃ mark more, c :: rest = '/' :: mark :: more ∧ (mark = '/' ∨ mark = '*') := by
  by_contra hnone
  have hline : isLineEnd c = false :=
    @not_isLineEnd (fun d => !isBlank d) (forall_of_all (by decide)) c (by rw [hblank]; rfl)
  have hskip := @skipGap_none c rest hline (by simp [hblank, hmark])
    (fun r => ⟨fun heq => hnone ⟨'/', r, heq, .inl rfl⟩, fun heq => hnone ⟨'*', r, heq, .inr rfl⟩⟩)
    false .start
  obtain ⟨q, hover⟩ := h .start
  rw [hskip] at hover
  cases hover

/-- A text that is one number for a program is the text of one. -/
theorem numberText_of_kinds {ts : List Token} (hsource : source.toList = c :: rest)
    (hc : c.isDigit = true ∨ c = '.') (hblank : ∀ c ∈ source.toList, isBlank c = false)
    (hcomment : ¬ Commented source.toList) (hmark : '\ufeff' ∉ source.toList)
    (h : tokens source = .ok ts) (hkinds : ts.map Token.kind = [.number value, .stop]) :
    NumberText source.toList value := by
  obtain ⟨ms, left, newline, hreads, hover, hmarks⟩ := reads_of_tokens h
  obtain ⟨m, rfl, hm⟩ : ∃ m : Mark, ms = [m] ∧ m.1 = .number value := by
    have := congrArg (List.map Prod.fst) hmarks
    rw [List.map_map, show Prod.fst ∘ Token.mark = Token.kind from rfl, hkinds, List.map_append,
      show [TokenKind.number value, .stop] = [.number value] ++ [.stop] from rfl] at this
    obtain ⟨m, hms, hm⟩ := List.map_eq_singleton_iff.mp (List.append_cancel_right this).symm
    exact ⟨m, hms, hm⟩
  cases hreads with
  | cons _ hnext hnil =>
    cases hnil
    -- nothing is skipped before the number
    obtain ⟨mid, q, q', hskip, hread⟩ := hnext .start
    rw [hsource, (not_gap_of_digit hc).1] at hskip
    obtain ⟨-, hmid⟩ := Prod.mk.inj (Except.ok.inj hskip)
    cases hmid
    rw [hm] at hread
    obtain ⟨front, x, hcs, hx, hfront⟩ := readNumber_front (readNumber_of_readToken hread)
    cases hx
    rw [hsource, hcs] at hblank hcomment hmark ⊢
    cases left with
    | nil => rwa [List.append_nil]
    | cons d left =>
        -- a gap after it would be a comment
        have hd : d ∈ front ++ d :: left := List.mem_append_right _ List.mem_cons_self
        obtain ⟨mark, more, heq, hopens⟩ := hover.opens (hblank d hd) fun hd' => hmark (hd' ▸ hd)
        rw [heq] at hcomment
        exact absurd ⟨front, mark, more, rfl, hopens, fun c hc =>
          ⟨(hfront.plain c hc).1, (hfront.plain c hc).2.1⟩⟩ hcomment

/-- **Numbers for a program.** -/
theorem kinds_iff_numberText (hsource : source.toList = c :: rest)
    (hc : c.isDigit = true ∨ c = '.') (hblank : ∀ c ∈ source.toList, isBlank c = false)
    (hcomment : ¬ Commented source.toList) :
    ('\ufeff' ∉ source.toList ∧
      ∃ ts, tokens source = .ok ts ∧ ts.map Token.kind = [.number value, .stop]) ↔
      NumberText source.toList value := by
  constructor
  · rintro ⟨hmark, ts, hts, hkinds⟩
    exact numberText_of_kinds hsource hc hblank hcomment hmark hts hkinds
  · intro h
    exact ⟨fun hmem => (h.plain _ hmem).2.2 rfl, kinds_of_numberText h⟩

/-- A program has no plus sign after `0x`. -/
theorem tokens_signedHexadecimal (h : SignedHexadecimal source.toList value) :
    tokens source = .error ⟨.invalidHexadecimal, ⟨1, 3⟩⟩ := by
  obtain ⟨mark, digits, -, hcs, hmark, -⟩ := h
  obtain ⟨hgap, hname⟩ := not_gap_of_digit (c := '0') (.inl (by decide))
  have hread : readToken ⟨'0' :: mark :: '+' :: digits, .start⟩ =
      .error ⟨.invalidHexadecimal, ⟨1, 3⟩⟩ := by
    rw [readToken]
    simp only [hname, Bool.false_eq_true, if_false]
    rcases hmark with rfl | rfl <;> rfl
  rw [tokens, Cursor.start, hcs, readTokens, hgap]
  simp only [hread]

end

/-! ### Both -/

/-- **One number.**  A text that begins with a digit or a point and has neither blanks nor comments is
a number for a script if and only if it is this number and nothing else in a program and has no byte
order mark, or it has hexadecimal digits after a plus sign, which a program cannot have. -/
theorem textNumber_eq_iff {source : String} {c : Char} {rest : List Char}
    (hsource : source.toList = c :: rest) (hc : c.isDigit = true ∨ c = '.')
    (hblank : ∀ c ∈ source.toList, isBlank c = false) (hcomment : ¬ Commented source.toList)
    (value : Float) : textNumber source = value ∧ value.isNaN = false ↔
      ('\ufeff' ∉ source.toList ∧
        ∃ ts, tokens source = .ok ts ∧ ts.map Token.kind = [.number value, .stop]) ∨
      SignedHexadecimal source.toList value ∧
        tokens source = .error ⟨.invalidHexadecimal, ⟨1, 3⟩⟩ := by
  rw [textNumber_iff_numberText hsource hc hblank,
    kinds_iff_numberText hsource hc hblank hcomment]
  exact or_congr_right ⟨fun h => ⟨h, tokens_signedHexadecimal h⟩, And.left⟩

/-- A numeral with a bare point, and a number that no program has. -/
theorem textNumber_eq_iff_samples :
    (textNumber "5.e+2" = 500 ∧
      ∃ ts, tokens "5.e+2" = .ok ts ∧ ts.map Token.kind = [.number 500, .stop]) ∧
    textNumber "0x+5" = 5 ∧ tokens "0x+5" = .error ⟨.invalidHexadecimal, ⟨1, 3⟩⟩ := by
  have uncommented : ∀ {cs : List Char}, '/' ∉ cs → ¬ Commented cs := by
    rintro cs h ⟨before, mark, rest, rfl, -⟩
    simp at h
  have plain := @textNumber_eq_iff "5.e+2" '5' ['.', 'e', '+', '2'] rfl (.inl (by decide))
    (forall_of_all (by decide)) (uncommented (by decide))
  have signed := @textNumber_eq_iff "0x+5" '0' ['x', '+', '5'] rfl (.inl (by decide))
    (forall_of_all (by decide)) (uncommented (by decide))
  have hplain : textNumber "5.e+2" = 500 := by decide +kernel
  have hsigned : textNumber "0x+5" = 5 := by decide +kernel
  constructor
  · rcases (plain 500).mp ⟨hplain, by decide +kernel⟩ with ⟨-, htokens⟩ | ⟨⟨_, _, _, hcs, -⟩, -⟩
    · exact ⟨hplain, htokens⟩
    · cases hcs
  · rcases (signed 5).mp ⟨hsigned, by decide +kernel⟩ with ⟨-, ts, hts, -⟩ | ⟨-, herror⟩
    · cases hts
    · exact ⟨hsigned, herror⟩

end Stencil.Script
