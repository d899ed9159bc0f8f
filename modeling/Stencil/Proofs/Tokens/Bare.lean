import Stencil.Proofs.Tokens.Words

/-!
# Tokens — bare words

A bare word is word characters and dollar signs.  Not all of these can stand in a name of the language:
a bare word that is no name is a keyword, begins with a digit, or holds a character that is no part of any
token.  So it never reads as a name or as a sign (`Reads.of_bare`).
-/

namespace Stencil.Script
open Stencil.Text Stencil.Variable

/-! ### Characters -/

theorem skipGap_bare {c : Char} (h : isBareChar c = true) (rest : List Char) (p : Position) :
    skipGap .blanks false p (c :: rest) = .ok (false, ⟨c :: rest, p⟩) := by
  obtain ⟨hline, hblank, hslash⟩ := not_gap_of_isBareChar h
  exact skipGap_none hline hblank (fun r => ⟨fun e => hslash (List.cons.inj e).1,
    fun e => hslash (List.cons.inj e).1⟩) false p

/-- Signs begin with no bare character. -/
theorem Punctuator.not_bare (sign : Punctuator) :
    ∃ c l, sign.spelling.toList = c :: l ∧ isBareChar c = false := by
  cases sign <;> exact ⟨_, _, rfl, by decide +kernel⟩

/-- **A bare character that begins no name and is no digit** is no part of a token. -/
theorem readToken_bare {c : Char} (h : isBareChar c = true) (hname : isNameStart c = false)
    (hdigit : c.isDigit = false) (rest : List Char) (p : Position) :
    readToken ⟨c :: rest, p⟩ = .error ⟨.invalidCharacter c, p⟩ := by
  have hfind : Punctuator.longestFirst.find? (·.spelling.toList.isPrefixOf (c :: rest)) = none := by
    refine List.find?_eq_none.mpr fun sign _ => ?_
    obtain ⟨d, l, hs, hd⟩ := sign.not_bare
    rw [hs, List.isPrefixOf_cons_cons, beq_eq_false_iff_ne.mpr (ne_of_isBareChar h hd).symm,
      Bool.false_and]
    exact Bool.false_ne_true
  have hdot : (c == '.') = false := beq_eq_false_iff_ne.mpr (ne_of_isBareChar h (by decide +kernel))
  have hquote : (c == '\'' || c == '"') = false := by
    rw [beq_eq_false_iff_ne.mpr (ne_of_isBareChar h (by decide +kernel)),
      beq_eq_false_iff_ne.mpr (ne_of_isBareChar h (by decide +kernel)), Bool.or_false]
  simp only [readToken, hname, hdigit, hdot, hquote, Bool.false_and, Bool.false_eq_true, if_false,
    readSign, hfind, List.headD_cons]

/-! ### Words -/

theorem isNamePart_of_isDigit {c : Char} (h : c.isDigit = true) : isNamePart c = true := by
  have hcode : c.toNat < 0x80 := by
    simp only [Char.isDigit, Bool.and_eq_true, decide_eq_true_eq, UInt32.le_iff_toNat_le] at h
    exact Nat.lt_of_le_of_lt h.2 (by decide)
  rw [isNamePart, isNumeral, if_pos hcode, h, Bool.or_true]

/-- A text cannot be read past a bare character that is no part of a name. -/
theorem Reads.not_bare {c : Char} (h : isBareChar c = true) (hpart : isNamePart c = false)
    {cs rest : List Char} {ms : List Mark} {newline : Bool} (hr : Reads (c :: cs) ms rest)
    (ho : Over rest newline) : False := by
  have hname : isNameStart c = false := by
    cases hn : isNameStart c with
    | false => rfl
    | true => rw [isNamePart_of_isNameStart hn] at hpart; cases hpart
  have hdigit : c.isDigit = false := by
    cases hd : c.isDigit with
    | false => rfl
    | true => rw [isNamePart_of_isDigit hd] at hpart; cases hpart
  cases hr with
  | nil =>
      obtain ⟨q, e⟩ := ho .start
      rw [skipGap_bare h] at e
      cases e
  | cons _ hn _ =>
      obtain ⟨mid, q, q', e₁, e₂⟩ := hn .start
      rw [skipGap_bare h] at e₁
      obtain ⟨-, hmid⟩ := Prod.mk.inj (Except.ok.inj e₁)
      rw [← hmid, readToken_bare h hname hdigit] at e₂
      cases e₂

theorem wordKind_ofList {word : String} {c : Char} {l : List Char} (hword : word.toList = c :: l)
    (hc : isNameStart c = true) (hl : l.all isNamePart = true) :
    isName word = true ∨ ∃ keyword, wordKind (String.ofList (c :: l)) = .keyword keyword := by
  rw [← hword, String.ofList_toList, wordKind, isName, hword]
  cases h : Keyword.ofSpelling? word with
  | some keyword => exact .inr ⟨keyword, rfl⟩
  | none =>
      left
      simp only [hc, hl, Option.isNone_none, Bool.and_self]

/-- **Bare words.**  A bare word that no name goes on from is a name, or the text does not read as one
that begins with a name or a sign. -/
theorem Reads.of_bare {word : String} {cs rest : List Char} {m : Mark} {ms : List Mark} {newline : Bool}
    (hne : word ≠ "") (hword : ∀ c ∈ word.toList, isBareChar c = true)
    (hcs : ∀ c ∈ cs.head?, isNamePart c = false) (hr : Reads (word.toList ++ cs) (m :: ms) rest)
    (ho : Over rest newline) :
    isName word = true ∨ (∃ keyword, m.1 = .keyword keyword) ∨ ∃ value, m.1 = .number value := by
  obtain ⟨c, l, hl⟩ := List.exists_cons_of_ne_nil (mt String.toList_eq_nil_iff.mp hne)
  rw [hl, List.cons_append] at hr
  rw [hl] at hword
  obtain ⟨hc, hbare⟩ := List.forall_mem_cons.mp hword
  cases hr with
  | cons hs hn hr =>
    cases hstart : isNameStart c with
    | true =>
        cases hmore : l.dropWhile isNamePart with
        | nil =>
            have hall : l.all isNamePart = true := by
              have := List.takeWhile_append_dropWhile (p := isNamePart) (l := l)
              rw [hmore, List.append_nil] at this
              rw [← this]
              exact List.all_takeWhile
            obtain ⟨rfl, -⟩ := hn.unique (.word hstart hall hcs)
            exact (wordKind_ofList hl hstart hall).imp_right .inl
        | cons d more =>
            -- the word goes on with a character that is no part of a token
            have hd : isNamePart d = false := by
              have := List.head?_dropWhile_not isNamePart l
              rwa [hmore] at this
            have hsplit : l ++ cs = l.takeWhile isNamePart ++ (d :: more ++ cs) := by
              rw [← List.append_assoc, ← hmore, List.takeWhile_append_dropWhile]
            rw [hsplit] at hn
            obtain ⟨-, rfl⟩ := hn.unique (.word hstart List.all_takeWhile fun e he => by cases he; exact hd)
            have hmem : d ∈ l := (List.dropWhile_suffix _).subset (hmore ▸ List.mem_cons_self)
            exact (Reads.not_bare (hbare d hmem) hd hr ho).elim
    | false =>
        obtain ⟨mid, q, q', e₁, e₂⟩ := hn .start
        rw [skipGap_bare hc] at e₁
        obtain ⟨-, hmid⟩ := Prod.mk.inj (Except.ok.inj e₁)
        rw [← hmid] at e₂
        cases hdigit : c.isDigit with
        | true =>
            simp only [readToken, hstart, hdigit, Bool.false_eq_true, if_false, if_true] at e₂
            exact .inr (.inr (readNumber_passes (.inl hdigit) e₂).1)
        | false =>
            rw [readToken_bare hc hstart hdigit] at e₂
            cases e₂

end Stencil.Script
