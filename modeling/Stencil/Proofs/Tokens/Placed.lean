import Stencil.Proofs.Tokens.Ends
import Stencil.Proofs.Tokens.Located
import Stencil.Proofs.Tokens.Quoted

/-!
# Tokens — a literal in its place

Text is written into a script between single quotes.  Where the tokens before it have ended, such a
literal is one token, whatever comes before and after it: reading goes on with the characters after the
closing quote, on the same line, as many columns further on as the literal has characters
(`tokens_quoted`).

`Resumes source done cursor`: reading the tokens of `source` has come to `cursor`, with the tokens `done`
before it.  That reading comes to where a text ends if more follows (`resumes_text`) holds with positions:
no reader looks past what it reads, and each one moves on over just that (`Rounds.front`).
-/

namespace Stencil.Text

/-- Only a line feed after a text changes how far it goes. -/
theorem Position.through_append_right {x : List Char} (hx : x.head? ≠ some '\n') (p : Position)
    (before rest : List Char) : p.through before (rest ++ x) = p.through before rest := by
  induction before generalizing p with
  | nil => rfl
  | cons c before ih =>
      have hafter : p.after c (before ++ (rest ++ x)) = p.after c (before ++ rest) := by
        rw [← List.append_assoc]
        cases hfollow : before ++ rest with
        | nil =>
            have hhead : (x.head? == some '\n') = false := beq_eq_false_iff_ne.mpr hx
            simp only [Position.after, List.nil_append, hhead, List.head?_nil]
            rfl
        | cons d more => rfl
      rw [through, through, hafter, ih]

end Stencil.Text

namespace Stencil.Script
open Stencil.Text

/-! ### A text before another -/

namespace Located

variable {α : Type} {cs : List Char}

/-- Where a reader ends, it is past what it has taken. -/
theorem ends {f : Position → Except ParseError (α × Cursor)} (h : Located cs f) {p : Position} {a : α}
    {next : Cursor} (e : f p = .ok (a, next)) :
    ∃ before, cs = before ++ next.rest ∧ next.position = p.through before next.rest := by
  rcases h with ⟨b, before, rest, hcs, h⟩ | ⟨cause, before, rest, -, h⟩
  · obtain ⟨-, rfl⟩ := Prod.mk.inj (Except.ok.inj (e.symm.trans (h p)))
    exact ⟨before, hcs, rfl⟩
  · cases e.symm.trans (h p)

/-- A reader that takes the same of a text with more after it ends at the same position. -/
theorem position_eq {f : Cursor → Except ParseError (α × Cursor)} {x rest : List Char}
    {p q q' : Position} {a a' : α} (h : Located cs fun p => f ⟨cs, p⟩)
    (h' : Located (cs ++ x) fun p => f ⟨cs ++ x, p⟩) (hx : x.head? ≠ some '\n')
    (e : f ⟨cs, p⟩ = .ok (a, ⟨rest, q⟩)) (e' : f ⟨cs ++ x, p⟩ = .ok (a', ⟨rest ++ x, q'⟩)) :
    q' = q := by
  obtain ⟨before, hcs, hq⟩ := h.ends e
  obtain ⟨before', hcs', hq'⟩ := h'.ends e'
  obtain rfl : before = before' := by
    rw [hcs, List.append_assoc] at hcs'
    exact List.append_cancel_right hcs'
  exact hq'.trans ((Position.through_append_right hx p before rest).trans hq.symm)

end Located

section
variable {cs x : List Char} {p : Position}

theorem skipGap_front {newline after : Bool} {mid : Cursor} (hx : Apart x) (hline : x.head? ≠ some '\n')
    (e : skipGap .blanks newline p cs = .ok (after, mid)) (hmid : mid.rest ≠ []) :
    skipGap .blanks newline p (cs ++ x) = .ok (after, ⟨mid.rest ++ x, mid.position⟩) := by
  obtain ⟨q, hq⟩ := (skipGap_steady e).2 x p hx (.inr hmid)
  have hposition := Located.position_eq (f := fun c => skipGap .blanks newline c.position c.rest)
    (skipGap_located .blanks newline cs) (skipGap_located .blanks newline (cs ++ x)) hline e hq
  rw [hq, hposition]

theorem readToken_front {kind : TokenKind} {next : Cursor} (hx : Apart x) (hline : x.head? ≠ some '\n')
    (e : readToken ⟨cs, p⟩ = .ok (kind, next)) (hk : kind.isStop = false) :
    readToken ⟨cs ++ x, p⟩ = .ok (kind, ⟨next.rest ++ x, next.position⟩) := by
  rcases readToken_steady e with ⟨rfl, -⟩ | ⟨-, -, -, -, happend⟩
  · cases hk
  · obtain ⟨q, hq⟩ := happend x p hx
    rw [hq, Located.position_eq (readToken_located cs) (readToken_located (cs ++ x)) hline e hq]

/-- **The tokens of a text and the gap after them**, with more text after it. -/
theorem Rounds.front {done ts : List Token} {cursor : Cursor} (h : Rounds done cursor ts) :
    ∃ own gap q stop, ts = done.reverse ++ own ++ [stop] ∧
      Reads cursor.rest (own.map Token.mark) gap ∧
      skipGap .blanks false q gap = .ok (stop.newlineBefore, ⟨[], stop.position⟩) ∧
      ∀ x bound, Apart x → x.head? ≠ some '\n' → (cursor.rest ++ x).length < bound →
        ∃ left, (gap ++ x).length < left ∧
          readTokens bound done ⟨cursor.rest ++ x, cursor.position⟩ =
            readTokens left (own.reverse ++ done) ⟨gap ++ x, q⟩ := by
  induction h with
  | @stop done cursor mid _ newline gap _ hend =>
      obtain ⟨rest, q⟩ := mid
      obtain rfl : rest = [] := hend
      exact ⟨[], cursor.rest, cursor.position, ⟨.stop, q, newline⟩, by simp, .nil, gap,
        fun x bound _ _ hb => ⟨bound, hb, rfl⟩⟩
  | @next done ts cursor mid after newline kind gap token hk shorter _ ih =>
      have hlen : mid.rest.length ≤ cursor.rest.length := (skipGap_steady gap).1.length_le
      obtain ⟨own, left, q, stop, rfl, hreads, hleft, hfront⟩ := ih
      refine ⟨⟨kind, mid.position, newline⟩ :: own, left, q, stop, by simp,
        .cons hk (next_of_run gap token hk) hreads, hleft, fun x bound hx hline hb => ?_⟩
      obtain ⟨bound, rfl⟩ : ∃ b, bound = b + 1 := ⟨bound - 1, by omega⟩
      rw [List.length_append] at hb
      obtain ⟨bound', hb', heq⟩ := hfront x bound hx hline (by rw [List.length_append]; omega)
      have hmid : mid.rest ≠ [] := List.ne_nil_of_length_pos (by omega)
      refine ⟨bound', hb', ?_⟩
      rw [readTokens, skipGap_front hx hline gap hmid]
      simp only [readToken_front hx hline token hk, hk, Bool.false_eq_true, if_false]
      rw [heq, List.reverse_cons, List.append_assoc, List.singleton_append]

end

/-! ### Reading that has come to a place -/

/-- **Reading that has come to a place** between tokens, with the tokens before it. -/
def Resumes (source : String) (done : List Token) (cursor : Cursor) : Prop :=
  ∃ left, cursor.rest.length < left ∧ tokens source = readTokens left done.reverse cursor

/-- A token at the front of what is left. -/
theorem Resumes.token {source : String} {done : List Token} {cursor mid next : Cursor} {newline : Bool}
    {kind : TokenKind} (h : Resumes source done cursor)
    (e₁ : skipGap .blanks false cursor.position cursor.rest = .ok (newline, mid))
    (e₂ : readToken mid = .ok (kind, next)) (hk : kind.isStop = false) :
    Resumes source (done ++ [⟨kind, mid.position, newline⟩]) next := by
  obtain ⟨left, hleft, heq⟩ := h
  obtain ⟨left, rfl⟩ : ∃ n, left = n + 1 := ⟨left - 1, by omega⟩
  have hlen : mid.rest.length ≤ cursor.rest.length := (skipGap_steady e₁).1.length_le
  rcases readToken_steady e₂ with ⟨rfl, -⟩ | ⟨-, -, -, hlt, -⟩
  · cases hk
  · refine ⟨left, by omega, ?_⟩
    rw [heq, readTokens, e₁]
    simp only [e₂, hk, Bool.false_eq_true, if_false, List.reverse_append, List.reverse_singleton,
      List.singleton_append]

/-! ### Literals -/

/-- Texts in sequence as one literal, each as it is written between quotes. -/
def quoted (texts : List String) : String :=
  String.ofList ('\'' :: (texts.flatMap fun text => Literal.escape text.toList) ++ ['\''])

/-- The text that texts in sequence are. -/
def joinedTexts (texts : List String) : String :=
  String.ofList (texts.flatMap String.toList)

theorem toList_quoted (texts : List String) :
    (quoted texts).toList = '\'' :: (Literal.escape (joinedTexts texts).toList ++ ['\'']) := by
  rw [quoted, joinedTexts, String.toList_ofList, String.toList_ofList, Literal.escape,
    List.flatMap_assoc]
  rfl

/-- What is written between quotes stays on its line. -/
theorem unbroken_escape (cs : List Char) : ∀ c ∈ Literal.escape cs, isLineEnd c = false := by
  intro d hd
  obtain ⟨c, -, hd⟩ := List.mem_flatMap.mp hd
  by_cases hc : c ∈ escapedChars
  · simp only [escapedChars, List.mem_cons, List.not_mem_nil, or_false] at hc
    rcases hc with rfl | rfl | rfl | rfl | rfl | rfl | rfl <;>
      exact (forall_of_all (P := fun d => isLineEnd d = false) (by decide)) d hd
  · rw [escapeChar_of_not_mem hc] at hd
    obtain rfl := List.mem_singleton.mp hd
    refine Bool.eq_false_iff.mpr fun hline => hc ?_
    exact (forall_of_all (P := (· ∈ escapedChars)) (by decide)) d (mem_lineEnds hline)

theorem unbroken_quoted (texts : List String) : ∀ c ∈ (quoted texts).toList, isLineEnd c = false := by
  rw [toList_quoted]
  exact List.forall_mem_cons.mpr ⟨by decide, List.forall_mem_append.mpr
    ⟨unbroken_escape _, fun c hc => by rw [List.mem_singleton.mp hc]; decide⟩⟩

/-- A literal is read as one string, and reading goes on after it on the same line. -/
theorem readToken_quoted (texts : List String) (after : List Char) (p : Position) :
    readToken ⟨(quoted texts).toList ++ after, p⟩ =
      .ok (.string (joinedTexts texts), ⟨after, p.along (quoted texts).length⟩) := by
  obtain ⟨mid, q, q', e₁, e₂⟩ := Next.quoted (joinedTexts texts).toList after p
  rw [skipGap_quote (.inl rfl)] at e₁
  cases e₁
  have htext : (quoted texts).toList ++ after =
      '\'' :: (Literal.escape (joinedTexts texts).toList ++ '\'' :: after) := by
    rw [toList_quoted]
    simp
  rw [String.ofList_toList, ← htext] at e₂
  obtain ⟨before, hcs, hposition⟩ := (readToken_located _).ends e₂
  obtain rfl : (quoted texts).toList = before := List.append_cancel_right hcs
  rw [Position.through_unbroken p (unbroken_quoted texts), String.length_toList] at hposition
  rw [e₂]
  exact congrArg (fun q => Except.ok (TokenKind.string (joinedTexts texts), Cursor.mk after q)) hposition

/-- **Reading comes to a literal** after a text, unless the text ends inside a comment. -/
theorem resumes_text {before : String} {ts : List Token} {stop : Token}
    (h : tokens before = .ok (ts ++ [stop])) (hopen : ¬ OpenComment before.toList)
    (texts : List String) (after : String) :
    ∃ cursor, Resumes (before ++ quoted texts ++ after) ts cursor ∧
      skipGap .blanks false cursor.position cursor.rest =
        .ok (stop.newlineBefore, ⟨(quoted texts).toList ++ after.toList, stop.position⟩) := by
  obtain ⟨own, gap, q, stop', hts, hreads, hgap, hfront⟩ := (rounds_of_readTokens h (Nat.lt_succ_self _)).front
  obtain ⟨rfl, hstop⟩ := List.append_inj' hts rfl
  obtain rfl := (List.cons.inj hstop).1
  rw [List.reverse_nil, List.nil_append] at *
  have hquote : ∃ y, (quoted texts).toList ++ after.toList = '\'' :: y := by
    rw [toList_quoted]
    exact ⟨_, rfl⟩
  obtain ⟨y, hy⟩ := hquote
  have hx : Apart ((quoted texts).toList ++ after.toList) := hy ▸ .cons (by decide)
  have hline : ((quoted texts).toList ++ after.toList).head? ≠ some '\n' := by
    rw [hy, List.head?_cons]
    decide
  have hsource : (before ++ quoted texts ++ after).toList =
      before.toList ++ ((quoted texts).toList ++ after.toList) := by
    rw [String.toList_append, String.toList_append, List.append_assoc]
  obtain ⟨left, hleft, heq⟩ := hfront _ ((before ++ quoted texts ++ after).toList.length + 1) hx hline
    (by rw [hsource]; exact Nat.lt_succ_self _)
  refine ⟨⟨gap ++ ((quoted texts).toList ++ after.toList), q⟩, ⟨left, hleft, ?_⟩, ?_⟩
  · rw [tokens, Cursor.start]
    simp only [hsource, List.append_nil] at heq ⊢
    exact heq
  · -- the gap does not go on into the literal, and ends where it ended without it
    rcases skipGap_over hgap rfl with ⟨hcomment, -⟩ | ⟨front, comment, rfl, hcomment, hfront⟩ | hover
    · cases hcomment
    · obtain ⟨newline, q', e'⟩ := hfront .start
      exact absurd (.of_rest hreads ⟨[], front, comment, newline, .nil, over_of_run e' rfl, hcomment⟩)
        hopen
    · obtain ⟨q', hq'⟩ := hover _ q hx
      have hnone := skipGap_quote (.inl rfl) y stop.newlineBefore q'
      rw [← hy] at hnone
      have e' := hq'.trans hnone
      have hposition := Located.position_eq (f := fun c => skipGap .blanks false c.position c.rest)
        (skipGap_located .blanks false gap) (skipGap_located .blanks false _) hline hgap
        (e'.trans (by rw [List.nil_append]))
      rw [e', hposition]

/-- **A literal does not leave its quotes.**  After a text that ends between tokens it is one string
token, with the texts joined as its value, where the text before it ended; reading goes on with the text
after it, on the same line. -/
theorem tokens_quoted {before : String} {ts : List Token} {stop : Token}
    (h : tokens before = .ok (ts ++ [stop])) (hopen : ¬ OpenComment before.toList)
    (texts : List String) (after : String) :
    Resumes (before ++ quoted texts ++ after)
      (ts ++ [⟨.string (joinedTexts texts), stop.position, stop.newlineBefore⟩])
      ⟨after.toList, stop.position.along (quoted texts).length⟩ := by
  obtain ⟨cursor, hresumes, hgap⟩ := resumes_text h hopen texts after
  exact hresumes.token hgap (readToken_quoted texts after.toList stop.position) rfl

/-- A backslash at the end of one text does not escape what the next one begins with, and an escape by
code point ends before a digit. -/
theorem tokens_quoted_backslash :
    tokens "x =\n" = .ok ([⟨.name "x", ⟨1, 1⟩, false⟩, ⟨.sign .assign, ⟨1, 3⟩, false⟩] ++
      [⟨.stop, ⟨2, 1⟩, true⟩]) ∧
    ¬ OpenComment "x =\n".toList ∧
    (quoted ["it's\\", "n\u2028", "0"]).toList = "'it\\'s\\\\n\\u20280'".toList ∧
    Resumes ("x =\n" ++ quoted ["it's\\", "n\u2028", "0"] ++ "+y")
      ([⟨.name "x", ⟨1, 1⟩, false⟩, ⟨.sign .assign, ⟨1, 3⟩, false⟩] ++
        [⟨.string (joinedTexts ["it's\\", "n\u2028", "0"]), ⟨2, 1⟩, true⟩])
      ⟨"+y".toList, ⟨2, 1 + (quoted ["it's\\", "n\u2028", "0"]).length⟩⟩ := by
  have htokens : tokens "x =\n" = .ok ([⟨.name "x", ⟨1, 1⟩, false⟩,
      ⟨.sign .assign, ⟨1, 3⟩, false⟩] ++ [⟨.stop, ⟨2, 1⟩, true⟩]) := rfl
  have hopen : ¬ OpenComment "x =\n".toList := CommentsEnd.not_open (by decide +kernel)
  exact ⟨htokens, hopen, by decide +kernel, tokens_quoted htokens hopen _ _⟩

end Stencil.Script
