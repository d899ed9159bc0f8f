import Stencil.Proofs.Tokens.Reads
import Stencil.Template.Variable

/-!
# Tokens — names and signs

How a name and a sign read, whatever text comes after, as long as it does not go on with them.
-/

namespace Stencil.Script
open Stencil.Text Stencil.Variable

/-! ### Characters -/

theorem Ranges.mem_of_has {r : Ranges} {n : Nat} (h : r.has n = true) :
    ∃ range ∈ r, range.1 ≤ n ∧ n ≤ range.2 := by
  induction r with
  | nil => cases h
  | cons range r ih =>
      obtain ⟨low, high⟩ := range
      simp only [Ranges.has] at h
      split at h
      · cases h
      · rename_i hlow
        rcases Bool.or_eq_true_iff.mp h with hhigh | hrest
        · exact ⟨(low, high), List.mem_cons_self, Nat.le_of_not_lt hlow, of_decide_eq_true hhigh⟩
        · obtain ⟨range, hr, hb⟩ := ih hrest
          exact ⟨range, List.mem_cons_of_mem _ hr, hb⟩

/-- All blanks. -/
def blankCodes : List Nat :=
  blankRanges.flatMap fun range => List.range' range.1 (range.2 - range.1 + 1)

theorem mem_blankCodes {c : Char} (h : isBlank c = true) : c.toNat ∈ blankCodes := by
  obtain ⟨range, hr, hlow, hhigh⟩ := Ranges.mem_of_has h
  exact List.mem_flatMap.mpr ⟨range, hr, List.mem_range'_1.mpr ⟨hlow, by omega⟩⟩

theorem not_isBlank {test : Char → Bool} (h : ∀ n ∈ blankCodes, test (Char.ofNat n) = false)
    {c : Char} (hc : test c = true) : isBlank c = false :=
  Bool.eq_false_iff.mpr fun hblank => by
    have := h c.toNat (mem_blankCodes hblank)
    rw [Char.ofNat_toNat, hc] at this
    cases this

theorem digitCodes_apart : ∀ n < 58, 48 ≤ n → isNameStart (Char.ofNat n) = false := by
  decide +kernel

theorem not_isDigit_of_isNameStart {c : Char} (h : isNameStart c = true) : c.isDigit = false := by
  cases hd : c.isDigit with
  | false => rfl
  | true =>
      simp only [Char.isDigit, Bool.and_eq_true, decide_eq_true_eq, ge_iff_le, UInt32.le_iff_toNat_le]
        at hd
      have := digitCodes_apart c.toNat (Nat.lt_succ_of_le hd.2) hd.1
      rw [Char.ofNat_toNat, h] at this
      cases this

theorem isBareChar_of_isNameStart {c : Char} (h : isNameStart c = true) : isBareChar c = true := by
  simp only [isNameStart, Bool.or_eq_true, beq_iff_eq] at h
  rcases h with (rfl | rfl) | h
  · decide +kernel
  · decide +kernel
  · rw [isBareChar, isWord_of_isLetter h, Bool.true_or]

theorem blankCodes_not_bare : ∀ n ∈ blankCodes, isBareChar (Char.ofNat n) = false := by
  decide +kernel

theorem ne_of_isBareChar {c d : Char} (h : isBareChar c = true) (hd : isBareChar d = false) : c ≠ d := by
  rintro rfl
  rw [h] at hd
  cases hd

/-- Bare characters begin no gap. -/
theorem not_gap_of_isBareChar {c : Char} (h : isBareChar c = true) :
    isLineEnd c = false ∧ (isBlank c || c == '\ufeff') = false ∧ c ≠ '/' := by
  have hblank : isBlank c = false := not_isBlank blankCodes_not_bare h
  refine ⟨?_, ?_, ne_of_isBareChar h (by decide +kernel)⟩
  · cases hl : isLineEnd c with
    | false => rfl
    | true =>
        simp only [isLineEnd, Bool.or_eq_true, beq_iff_eq] at hl
        rcases hl with ((rfl | rfl) | rfl) | rfl <;> revert hblank <;> decide
  · rw [hblank, Bool.false_or]
    exact beq_eq_false_iff_ne.mpr (ne_of_isBareChar h (by decide +kernel))

theorem not_gap_of_isNameStart {c : Char} (h : isNameStart c = true) :
    isLineEnd c = false ∧ (isBlank c || c == '\ufeff') = false ∧ c ≠ '/' :=
  not_gap_of_isBareChar (isBareChar_of_isNameStart h)

theorem isNamePart_of_isNameStart {c : Char} (h : isNameStart c = true) : isNamePart c = true := by
  simp only [isNameStart, isNamePart, Bool.or_eq_true] at h ⊢
  exact .inl h

/-! ### Names -/

/-- The kind of token that a word is. -/
def wordKind (word : String) : TokenKind :=
  match Keyword.ofSpelling? word with
  | some keyword => .keyword keyword
  | none => .name word

theorem Next.word {c : Char} {l r : List Char} (hc : isNameStart c = true)
    (hl : l.all isNamePart = true) (hr : ∀ d ∈ r.head?, isNamePart d = false) :
    Next (c :: l ++ r) (wordKind (String.ofList (c :: l)), false) r := by
  obtain ⟨hline, hblank, hslash⟩ := not_gap_of_isNameStart hc
  have hstop : r.takeWhile isNamePart = [] := by
    cases r with
    | nil => rfl
    | cons d r => exact List.takeWhile_cons_of_neg (by simp [hr d rfl])
  have hword : (c :: l ++ r).takeWhile isNamePart = c :: l := by
    have hall : ∀ d ∈ c :: l, isNamePart d = true := by
      intro d hd
      rcases List.mem_cons.mp hd with rfl | hd
      · exact isNamePart_of_isNameStart hc
      · exact List.all_eq_true.mp hl d hd
    rw [List.takeWhile_append_of_pos hall, hstop, List.append_nil]
  intro p
  refine ⟨c :: l ++ r, p, p.along (c :: l).length,
    skipGap_none hline hblank (fun r => ⟨?_, ?_⟩) false p, ?_⟩
  · exact fun h => hslash (List.cons.inj h).1
  · exact fun h => hslash (List.cons.inj h).1
  · rw [List.cons_append] at hword ⊢
    simp only [readToken, if_pos hc, readWord, hword, Cursor.drop]
    rw [← List.cons_append, List.drop_left]
    rfl

theorem isName_iff {word : String} (h : isName word = true) :
    ∃ c cs, word.toList = c :: cs ∧ isNameStart c = true ∧ cs.all isNamePart = true ∧
      wordKind word = .name word := by
  simp only [isName] at h
  split at h
  · cases h
  · rename_i c cs hw
    simp only [Bool.and_eq_true, Option.isNone_iff_eq_none] at h
    exact ⟨c, cs, hw, h.1.1, h.1.2, by rw [wordKind, h.2]⟩

theorem isNamePart_of_isName {word : String} (h : isName word = true) :
    ∀ c ∈ word.toList, isNamePart c = true := by
  obtain ⟨first, more, hword, hfirst, hmore, -⟩ := isName_iff h
  rw [hword]
  exact List.forall_mem_cons.mpr ⟨isNamePart_of_isNameStart hfirst, List.all_eq_true.mp hmore⟩

/-- **Names.** -/
theorem Next.name {word : String} {rest : List Char} (hw : isName word = true)
    (hrest : ∀ c ∈ rest.head?, isNamePart c = false) :
    Next (word.toList ++ rest) (.name word, false) rest := by
  obtain ⟨c, cs, hcs, hc, hall, hkind⟩ := isName_iff hw
  have h := Next.word hc hall hrest
  rw [← hcs, String.ofList_toList, hkind] at h
  exact h

/-! ### Signs -/

/-- Whether a sign ends before a text. -/
def EndsSign (rest : List Char) : Prop :=
  ∀ c ∈ rest.head?, c ∉ ['=', '.', '&', '|', '?', '+', '-', '/', '*'] ∧ c.isDigit = false

/-- The characters of a sign: what it begins with, and what it can go on with. -/
theorem Punctuator.spelling_chars (sign : Punctuator) : ∃ c l, sign.spelling.toList = c :: l ∧
    isNameStart c = false ∧ c.isDigit = false ∧ (c == '\'' || c == '"') = false ∧
    isLineEnd c = false ∧ (isBlank c || c == '\ufeff') = false ∧
    (∀ d ∈ l, d ∈ ['=', '.', '&', '|', '?', '+', '-']) := by
  cases sign <;> exact ⟨_, _, rfl, by decide, by decide, by decide, by decide, by decide,
    forall_of_all (by decide)⟩

theorem Punctuator.find?_spelling (sign : Punctuator) :
    Punctuator.longestFirst.find? (·.spelling.toList.isPrefixOf sign.spelling.toList)
      = some sign := by
  cases sign <;> decide

theorem isPrefixOf_ends {l : List Char} {rest : List Char}
    (hl : ∀ d ∈ l, ∀ c ∈ rest.head?, d ≠ c) (cs : List Char) :
    l.isPrefixOf (cs ++ rest) = l.isPrefixOf cs := by
  induction l generalizing cs with
  | nil => rw [List.isPrefixOf_nil_left, List.isPrefixOf_nil_left]
  | cons d l ih =>
      cases cs with
      | nil =>
          cases rest with
          | nil => rfl
          | cons c rest =>
              have hne := hl d List.mem_cons_self c rfl
              simp [List.isPrefixOf, hne]
      | cons c cs =>
          simp only [List.cons_append, List.isPrefixOf_cons_cons]
          rw [ih fun d hd => hl d (List.mem_cons_of_mem _ hd)]

theorem EndsSign.ne {rest : List Char} (h : EndsSign rest) {d c : Char} (hc : c ∈ rest.head?)
    (hd : d ∈ ['=', '.', '&', '|', '?', '+', '-', '/', '*']) : d ≠ c :=
  fun heq => (h c hc).1 (heq ▸ hd)

theorem isPrefixOf_sign {rest : List Char} (h : EndsSign rest) (sign other : Punctuator) :
    other.spelling.toList.isPrefixOf (sign.spelling.toList ++ rest)
      = other.spelling.toList.isPrefixOf sign.spelling.toList := by
  obtain ⟨c, l, hs, -⟩ := sign.spelling_chars
  obtain ⟨d, l', hs', -, -, -, -, -, hl'⟩ := other.spelling_chars
  rw [hs, hs', List.cons_append, List.isPrefixOf_cons_cons, List.isPrefixOf_cons_cons,
    isPrefixOf_ends]
  intro e he c' hc'
  exact h.ne hc' ((show ∀ e ∈ ['=', '.', '&', '|', '?', '+', '-'],
    e ∈ ['=', '.', '&', '|', '?', '+', '-', '/', '*'] from forall_of_all (by decide)) e (hl' e he))

theorem endsSign_space (rest : List Char) : EndsSign (' ' :: rest) := by
  intro c hc
  cases hc
  decide

theorem endsSign_name {word : String} (h : isName word = true) (rest : List Char) :
    EndsSign (word.toList ++ rest) := by
  obtain ⟨c, cs, hcs, hc, -⟩ := isName_iff h
  intro d hd
  rw [hcs] at hd
  cases hd
  refine ⟨fun hmem => ?_, not_isDigit_of_isNameStart hc⟩
  have := (show ∀ c ∈ ['=', '.', '&', '|', '?', '+', '-', '/', '*'], isNameStart c = false from
            forall_of_all (by decide))
    _ hmem
  rw [hc] at this
  cases this

/-- **Signs.** -/
theorem Next.sign (sign : Punctuator) {r : List Char} (hrest : EndsSign r) :
    Next (sign.spelling.toList ++ r) (.sign sign, false) r := by
  have hfind : Punctuator.longestFirst.find?
      (·.spelling.toList.isPrefixOf (sign.spelling.toList ++ r)) = some sign := by
    simp only [isPrefixOf_sign hrest]
    exact sign.find?_spelling
  have hlen : sign.spelling.length = sign.spelling.toList.length := String.length_toList.symm
  obtain ⟨c, l, hs, hname, hdigit, hquote, hline, hblank, hl⟩ := sign.spelling_chars
  -- neither the rest of the sign nor what comes after it makes a comment of its first character
  have hcomment : ∀ d ∈ ['/', '*'], ∀ q, l ++ r ≠ d :: q := by
    intro d hd q heq
    cases l with
    | nil =>
        exact hrest.ne (by rw [List.nil_append] at heq; rw [heq]; rfl)
          ((show ∀ d ∈ ['/', '*'], d ∈ ['=', '.', '&', '|', '?', '+', '-', '/', '*'] from
            forall_of_all (by decide)) d hd)
          rfl
    | cons e l =>
        cases heq
        exact (show ∀ d ∈ ['/', '*'], d ∉ ['=', '.', '&', '|', '?', '+', '-'] from
            forall_of_all (by decide)) d hd
          (hl d List.mem_cons_self)
  -- nor do they make a number of a point
  have hnodigit : ((l ++ r).head?.map Char.isDigit).getD false = false := by
    cases l with
    | nil =>
        cases r with
        | nil => rfl
        | cons c r => exact (hrest c rfl).2
    | cons e l =>
        exact (show ∀ d ∈ ['=', '.', '&', '|', '?', '+', '-'], d.isDigit = false from
            forall_of_all (by decide)) e
          (hl e List.mem_cons_self)
  intro p
  rw [hs, List.cons_append] at hfind ⊢
  refine ⟨c :: (l ++ r), p, p.along sign.spelling.length,
    skipGap_none hline hblank (fun q => ⟨?_, ?_⟩) false p, ?_⟩
  · exact fun h => hcomment '/' (by decide) q (List.cons.inj h).2
  · exact fun h => hcomment '*' (by decide) q (List.cons.inj h).2
  · simp only [readToken, hname, hdigit, hnodigit, hquote, Bool.and_false, Bool.false_eq_true,
      if_false, readSign, hfind, Cursor.drop]
    rw [hlen, hs, ← List.cons_append, List.drop_left]

/-! ### Before a known character -/

section
variable {c : Char} {l : List Char}

theorem Next.nameBefore (word : String) (hw : isName word = true) (hc : isNamePart c = false) :
    Next (word.toList ++ c :: l) (.name word, false) (c :: l) :=
  .name hw fun d hd => by cases hd; exact hc

theorem Next.wordBefore (first : Char) (more : List Char) (hfirst : isNameStart first = true)
    (hmore : more.all isNamePart = true) (hc : isNamePart c = false) :
    Next (first :: more ++ c :: l) (wordKind (String.ofList (first :: more)), false) (c :: l) :=
  .word hfirst hmore fun d hd => by cases hd; exact hc

theorem Next.signBefore (sign : Punctuator)
    (hc : c ∉ ['=', '.', '&', '|', '?', '+', '-', '/', '*'] ∧ c.isDigit = false) :
    Next (sign.spelling.toList ++ c :: l) (.sign sign, false) (c :: l) :=
  .sign sign fun d hd => by cases hd; exact hc

end

/-- Parentheses, brackets, braces, commas, semicolons and colons end before any text. -/
theorem Next.alone (sign : Punctuator) (h : sign ∈ [.openParen, .closeParen, .openBracket,
      .closeBracket, .openBrace, .closeBrace, .comma, .semicolon, .colon]) (rest : List Char) :
    Next (sign.spelling.toList ++ rest) (.sign sign, false) rest := by
  have one : ∀ c : Char, isLineEnd c = false → (isBlank c || c == '\ufeff') = false → c ≠ '/' →
      readToken ⟨c :: rest, .start⟩ = .ok (.sign sign, ⟨rest, Position.start.along 1⟩) →
      Next (c :: rest) (.sign sign, false) rest := fun c hline hblank hslash hread =>
    next_of_run
      (skipGap_none hline hblank (fun r => ⟨fun e => hslash (List.cons.inj e).1,
        fun e => hslash (List.cons.inj e).1⟩) false .start) hread rfl
  simp only [List.mem_cons, List.not_mem_nil, or_false] at h
  rcases h with rfl | rfl | rfl | rfl | rfl | rfl | rfl | rfl | rfl <;>
    exact one _ (by decide) (by decide) (by decide) rfl

end Stencil.Script
