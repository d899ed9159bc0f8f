import Stencil.Proofs.Tokens.Numbers
import Stencil.Proofs.Tokens.Quoted

/-!
# Tokens — tokens written out

`spelled kinds` is a text of the given tokens with one space between them.  A text that is written
like this reads as these tokens, all on one line (`reads_spelled`).
-/

namespace Stencil.Script
open Stencil.Text

/-- How a token is written. -/
def TokenKind.written : TokenKind → List Char
  | .name word => word.toList
  | .keyword word => word.spelling.toList
  | .number value => (Number.text value).toList
  | .string value => '\'' :: (Literal.escape value.toList ++ ['\''])
  | .sign mark => mark.spelling.toList
  | .stop => []

/-- Tokens with one space between them. -/
def spelled : List TokenKind → List Char
  | [] => []
  | kind :: rest => kind.written ++ (if rest.isEmpty then [] else ' ' :: spelled rest)

/-- Whether a number has a numeral: it is finite and has no sign. -/
def isLiteral (value : Float) : Bool :=
  value.isFinite && !Number.signBit value

/-- Whether a token can be written: a name is a name, and a number has a numeral. -/
def TokenKind.Writable : TokenKind → Prop
  | .name word => isName word = true
  | .number value => isLiteral value = true
  | .stop => False
  | _ => True

theorem TokenKind.Writable.not_stop {kind : TokenKind} (h : kind.Writable) : kind.isStop = false := by
  cases kind with
  | stop => exact h.elim
  | _ => rfl

/-! ### Tokens -/

/-- **Numerals.** -/
theorem Next.numeral {value : Float} (h : isLiteral value = true) :
    Next (Number.text value).toList (.number value, false) [] := by
  simp only [isLiteral, Bool.and_eq_true, Bool.not_eq_true'] at h
  obtain ⟨m, e, hnumeral, rfl⟩ := Number.numeral_text h.1 h.2
  exact (NumberText.decimal hnumeral.unsigned?).next

theorem wordKind_spelling (word : Keyword) : wordKind word.spelling = .keyword word := by
  cases word <;> rfl

theorem Next.keyword (word : Keyword) : Next word.spelling.toList (.keyword word, false) [] := by
  obtain ⟨c, l, hcs, hc, hl⟩ : ∃ c l, word.spelling.toList = c :: l ∧ isNameStart c = true ∧
      l.all isNamePart = true := by
    cases word <;> exact ⟨_, _, rfl, by decide, by decide⟩
  have h := @Next.word c l [] hc hl fun d hd => by cases hd
  rw [List.append_nil, ← hcs, String.ofList_toList, wordKind_spelling] at h
  exact h

/-- **A token that can be written is what its text reads as.** -/
theorem TokenKind.Writable.next {kind : TokenKind} (h : kind.Writable) :
    Next kind.written (kind, false) [] := by
  cases kind with
  | name word =>
      have := @Next.name word [] h fun c hc => by cases hc
      rwa [List.append_nil] at this
  | keyword word => exact Next.keyword word
  | number value => exact Next.numeral h
  | string value =>
      have := Next.quoted value.toList []
      rwa [String.ofList_toList] at this
  | sign mark =>
      have := Next.sign mark (r := []) fun c hc => by cases hc
      rwa [List.append_nil] at this
  | stop => exact h.elim

/-- **Tokens with one space between them.** -/
theorem reads_spelled {kinds : List TokenKind} (h : ∀ kind ∈ kinds, kind.Writable) :
    Reads (spelled kinds) (kinds.map fun kind => (kind, false)) [] := by
  induction kinds with
  | nil => exact .nil
  | cons kind rest ih =>
      have hkind := h kind List.mem_cons_self
      have others := ih fun k hk => h k (List.mem_cons_of_mem _ hk)
      cases rest with
      | nil =>
          rw [spelled, List.isEmpty_nil, if_pos rfl, List.append_nil]
          exact .cons hkind.not_stop hkind.next .nil
      | cons next rest =>
          refine .cons hkind.not_stop (hkind.next.append_apart hkind.not_stop ?_) others.space
          exact (by decide : ' ' ∈ apartChars)

theorem over_nil : Over [] false := fun p => ⟨p, rfl⟩

/-- A text that is one token. -/
theorem tokens_of_next {source : String} {m : Mark} (h : Next source.toList m [])
    (hm : m.1.isStop = false) :
    ∃ ts, tokens source = .ok ts ∧ ts.map Token.mark = [m, (.stop, false)] :=
  tokens_of_reads (.cons hm h .nil) over_nil

end Stencil.Script
