import Stencil.Proofs.Compile.Values
import Stencil.Proofs.Sheets.Tokens

/-!
# Sheets — the trees of a sheet

The tokens of a sheet parse to statements with the structure of the sheet, unless they nest too deep
(`Sheet.gives`).
-/

namespace Stencil
open Script Script.Parser Template

/-! ### Trees -/

/-- What a directive writes: the value of its expression, nothing for `undefined` and `null`. -/
def Segment.value (segment : Segment) : Expr :=
  .conditional (.binary .equal (.assign none (.name "__t") segment.phrase.tree) .null) (.string "")
    (if segment.escapes then .call (.member (.name "_") "escape") [.name "__t"] else .name "__t")

/-- A line up to a value and the text after it. -/
def Segment.extend (left : Expr) (segment : Segment) : Expr :=
  .binary .add (.binary .add left segment.value) (.string segment.after.text)

/-- The text of a line, put together. -/
def Line.tree (line : Line) : Expr :=
  line.segments.foldl Segment.extend (.string line.first.text)

/-- The statement that writes a line. -/
def Line.stmt (line : Line) : Stmt :=
  .expr (.assign (some .add) (.name "__p") line.tree)

/-- The variable of a repetition. -/
def LoopName.binding (name : LoopName) : LoopBinding :=
  ⟨some .let, name.word⟩

/-- **The statements of a sheet.** -/
def Sheet.stmts : Sheet → List Stmt
  | line l => [l.stmt]
  | branch l test yes no rest =>
    l.stmt :: .branch test.tree (.block yes.stmts) (some (.block no.stmts)) :: rest.stmts
  | each l name subject body rest =>
    l.stmt :: .forOf name.binding subject.tree (.block body.stmts) :: rest.stmts

/-! ### Lines and sheets -/

theorem gives_segments {segments : List Segment} {run : List Char} {ms : List Mark}
    (h : Spliced run (cutParts (segments.map Segment.cut)) ms) {ts : List Token}
    (hts : ts.map Token.mark = ms) :
    ∃ t us last, ts = t :: (us ++ [last]) ∧ t.kind = .string (String.ofList run) ∧
      last.kind = .sign .semicolon ∧ 2 * segments.length ≤ us.length ∧ ∀ x : List Token,
        EndsText (headKind (us ++ last :: x)) ∧
        ∀ {n room rounds : Nat} {left : Expr}, us.length < n → 2 * segments.length ≤ rounds →
          Gives True (chain (infixed (levels n room) n 1) 6 rounds left) (us ++ last :: x)
            (segments.foldl Segment.extend left) (last :: x) := by
  induction segments generalizing run ms ts with
  | nil =>
      cases h with
      | last =>
          obtain ⟨t, ts, rfl, ht, hts⟩ := List.map_eq_cons_iff.mp hts
          obtain ⟨last, rfl, hlast⟩ := List.map_eq_singleton_iff.mp hts
          have hkind : last.kind = .sign .semicolon := congrArg Prod.fst hlast
          refine ⟨t, [], last, rfl, congrArg Prod.fst ht, hkind, Nat.le_refl _, fun x => ⟨?_, ?_⟩⟩
          · rw [List.nil_append, headKind, hkind]
            exact ⟨by decide, rfl⟩
          · intro n room rounds left _ _
            exact .chainDone (by rw [List.nil_append, headKind, hkind]; rfl)
  | cons segment segments ih =>
      cases h with
      | @directive _ _ newline _ _ own ms before closes hown hbefore hcloses _ hmore =>
          cases hmore with
          | text hmore =>
              obtain ⟨t, ts, rfl, ht, hts⟩ := List.map_eq_cons_iff.mp hts
              obtain ⟨ts₁, ts, rfl, hts₁, hts⟩ := List.map_eq_append_iff.mp hts
              obtain ⟨ts₀, ts, rfl, hts₀, hts⟩ := List.map_eq_append_iff.mp hts
              obtain ⟨ts₂, ts, rfl, hts₂, hts⟩ := List.map_eq_append_iff.mp hts
              obtain ⟨u, us, last, rfl, hu, hlast, hlen, h⟩ := ih hmore hts
              have hkinds₁ : kinds ts₁ = opening segment.kind := (kinds_of_marks hts₁).trans hbefore
              have hkinds₂ : kinds ts₂ = closing segment.kind := (kinds_of_marks hts₂).trans hcloses
              have htext : u.kind = .string segment.after.text := by
                rw [hu, List.nil_append]
                exact congrArg _ String.ofList_toList
              -- whether it escapes or not, a directive begins with the plus that joins it to the text
              obtain ⟨p, ts₁, rfl, hp⟩ : ∃ p ts, ts₁ = p :: ts ∧ p.kind = .sign .plus := by
                cases ts₁ with
                | nil =>
                    cases he : segment.escapes <;>
                      simp [kinds, Segment.kind, he, opening] at hkinds₁
                | cons p ts₁ =>
                    refine ⟨p, ts₁, rfl, ?_⟩
                    cases he : segment.escapes <;> simp only [Segment.kind, he] at hkinds₁ <;>
                      exact (List.cons.inj hkinds₁).1
              refine ⟨t, p :: ts₁ ++ (ts₀ ++ (ts₂ ++ u :: us)), last, ?_, congrArg Prod.fst ht, hlast, ?_,
                fun x => ⟨?_, ?_⟩⟩
              · simp only [List.append_assoc, List.cons_append]
              · simp only [List.length_append, List.length_cons]
                omega
              · rw [List.cons_append, List.cons_append, headKind, hp]
                exact ⟨by decide, rfl⟩
              · intro n room rounds left hn hrounds
                simp only [List.length_append, List.length_cons] at hn hrounds
                obtain ⟨hends, hmore⟩ := h x
                -- one round of the chain for the value and one for the text after it
                obtain ⟨rounds, rfl⟩ : ∃ r, rounds = r + 2 := ⟨rounds - 2, by omega⟩
                simp only [List.append_assoc, List.cons_append]
                exact gives_value segment.phrase.expresses hown
                  (hts₀.trans (entered_valueKind segment.escapes own)) hkinds₁ hkinds₂ htext
                  (by rw [List.length_cons]; omega) hends (hmore (by omega) (by omega))

/-- **A line is a statement.** -/
theorem Line.gives (line : Line) {ms : List Mark} (h : line.Marks ms) {ts : List Token}
    (hts : ts.map Token.mark = ms) {n room : Nat} (hn : ts.length ≤ n) {inLoop : Bool}
    (x : List Token) :
    Gives True ((levels n room).statement inLoop) (ts ++ x) line.stmt x := by
  obtain ⟨newline, newline', ms, rfl, hms⟩ := h
  obtain ⟨p, ts, rfl, hp, hts⟩ := List.map_eq_cons_iff.mp hts
  obtain ⟨q, ts, rfl, hq, hts⟩ := List.map_eq_cons_iff.mp hts
  obtain ⟨t, us, last, rfl, ht, hlast, hlen, h⟩ := gives_segments hms hts
  have hp' : p.kind = .name "__p" := congrArg Prod.fst hp
  have hq' : q.kind = .sign .plusAssign := congrArg Prod.fst hq
  obtain ⟨hends, hchain⟩ := h x
  simp only [List.length_cons, List.length_append, List.length_nil] at hn
  simp only [List.cons_append, List.append_assoc, List.nil_append]
  rw [String.ofList_toList] at ht
  exact gives_appending hp' hq' ht hlast room hends (fun r => hchain (by omega) (by omega)) inLoop

/-- The tokens of an expression between known ones. -/
theorem Phrase.Between.tokens {phrase : Phrase} {before after : List TokenKind} {ms : List Mark}
    (h : phrase.Between before after ms) {ts : List Token} (hts : ts.map Token.mark = ms) :
    ∃ ts₁ us ts₂ own, ts = ts₁ ++ (us ++ ts₂) ∧ kinds ts₁ = before ∧
      Alone phrase.text.toList own ∧ us.map Token.mark = own ∧ kinds ts₂ = after := by
  obtain ⟨ms₁, own, ms₂, rfl, hbefore, hown, hafter⟩ := h
  obtain ⟨ts₁, ts, rfl, hts₁, hts⟩ := List.map_eq_append_iff.mp hts
  obtain ⟨us, ts₂, rfl, hus, hts₂⟩ := List.map_eq_append_iff.mp hts
  exact ⟨ts₁, us, ts₂, own, rfl, (kinds_of_marks hts₁).trans hbefore, hown, hus,
    (kinds_of_marks hts₂).trans hafter⟩

/-- Tokens that parse to statements, whatever statements follow. -/
structure GivesBody (ts : List Token) (stmts : List Stmt) : Prop where
  gives : ∀ {n room least : Nat} {inLoop : Bool} {rest after : List Token} {others : List Stmt},
    ts.length < n →
    (∀ rounds, least ≤ rounds →
      Gives True (statements (levels n room) inLoop rounds) rest others after) →
    ∀ rounds, least + ts.length ≤ rounds →
      Gives True (statements (levels n room) inLoop rounds) (ts ++ rest) (stmts ++ others) after

/-- A statement. -/
theorem GivesBody.one {t : Token} {ts : List Token} {s : Stmt}
    (ht : (t.kind.isSign .closeBrace || t.kind.isStop) = false)
    (h : ∀ {n room : Nat} {inLoop : Bool} (x : List Token), (t :: ts).length < n →
      Gives True ((levels n room).statement inLoop) (t :: (ts ++ x)) s x) :
    GivesBody (t :: ts) [s] := by
  refine ⟨fun {n room least inLoop rest after others} hn ho rounds hrounds => ?_⟩
  rw [List.length_cons] at hrounds
  obtain ⟨rounds, rfl⟩ : ∃ r, rounds = r + 1 := ⟨rounds - 1, by omega⟩
  exact .statementsCons ht (h rest hn) (ho rounds (by omega))

/-- Statements in sequence. -/
theorem GivesBody.append {ts us : List Token} {stmts stmts' : List Stmt} (h : GivesBody ts stmts)
    (h' : GivesBody us stmts') : GivesBody (ts ++ us) (stmts ++ stmts') := by
  refine ⟨fun {n room least inLoop rest after others} hn ho rounds hrounds => ?_⟩
  rw [List.length_append] at hn hrounds
  rw [List.append_assoc, List.append_assoc]
  exact h.gives (by omega) (h'.gives (by omega) ho) rounds (by omega)

/-- Statements in braces. -/
theorem GivesBody.block {ts : List Token} {stmts : List Stmt} (h : GivesBody ts stmts)
    {t u : Token} (ht : t.kind = .sign .openBrace) (hu : u.kind = .sign .closeBrace) {n room : Nat}
    (hn : ts.length < n) {inLoop : Bool} (x : List Token) :
    Gives True ((levels n room).statement inLoop) (t :: (ts ++ u :: x)) (.block stmts) x := by
  refine .statement (fun _ => trivial) fun r _ => .block ht ?_ hu
  have nothing : ∀ rounds, 0 ≤ rounds →
      Gives True (statements (levels n r) inLoop rounds) (u :: x) [] (u :: x) := fun rounds _ =>
    .statementsNil (by rw [headKind, hu]; rfl)
  have body := h.gives hn nothing n (by omega)
  rwa [List.append_nil] at body

theorem Line.givesBody {line : Line} {ms : List Mark} (h : line.Marks ms) {ts : List Token}
    (hts : ts.map Token.mark = ms) : GivesBody ts [line.stmt] := by
  obtain ⟨newline, newline', ms, rfl, -⟩ := id h
  obtain ⟨p, us, rfl, hp, -⟩ := List.map_eq_cons_iff.mp hts
  have hkind : p.kind = .name "__p" := congrArg Prod.fst hp
  exact .one (by rw [hkind]; rfl) fun x hn => line.gives h hts (Nat.le_of_lt hn) x

/-- A choice between two blocks. -/
theorem givesBody_branch {test : Phrase} {yes no : List Stmt} {ms ms' ms'' : List Mark}
    (hif : IfMarks test ms)
    (helse : ms'.map Prod.fst = [.sign .closeBrace, .keyword .else, .sign .openBrace])
    (hend : ms''.map Prod.fst = [.sign .closeBrace]) {ts₁ ts₂ ts₃ ts₄ ts₅ : List Token}
    (h₁ : ts₁.map Token.mark = ms) (h₂ : GivesBody ts₂ yes) (h₃ : ts₃.map Token.mark = ms')
    (h₄ : GivesBody ts₄ no) (h₅ : ts₅.map Token.mark = ms'') :
    GivesBody (ts₁ ++ (ts₂ ++ (ts₃ ++ (ts₄ ++ ts₅))))
      [.branch test.tree (.block yes) (some (.block no))] := by
  obtain ⟨before, us, after, own, rfl, hbefore, hown, hus, hafter⟩ := hif.tokens h₁
  obtain ⟨a₁, before, rfl, ha₁, h⟩ := List.map_eq_cons_iff.mp hbefore
  obtain ⟨a₂, rfl, ha₂⟩ := List.map_eq_singleton_iff.mp h
  obtain ⟨b₁, after, rfl, hb₁, h⟩ := List.map_eq_cons_iff.mp hafter
  obtain ⟨b₂, rfl, hb₂⟩ := List.map_eq_singleton_iff.mp h
  obtain ⟨c₁, ts₃, rfl, hc₁, h⟩ := List.map_eq_cons_iff.mp ((kinds_of_marks h₃).trans helse)
  obtain ⟨c₂, ts₃, rfl, hc₂, h⟩ := List.map_eq_cons_iff.mp h
  obtain ⟨c₃, rfl, hc₃⟩ := List.map_eq_singleton_iff.mp h
  obtain ⟨d, rfl, hd⟩ := List.map_eq_singleton_iff.mp ((kinds_of_marks h₅).trans hend)
  simp only [List.append_assoc, List.cons_append, List.nil_append]
  refine .one (by rw [ha₁]; rfl) fun x hn => .statement (fun _ => trivial) fun r _ => ?_
  simp only [List.append_assoc, List.cons_append, List.nil_append, List.length_append,
    List.length_cons] at hn ⊢
  exact .branchElse ha₁ ha₂ (test.expresses.gives hown hus hb₁ (by omega)) hb₁
    (h₂.block hb₂ hc₁ (by omega) _) hc₂ (h₄.block hc₃ hd (by omega) _)

/-- A repeated block. -/
theorem givesBody_each {name : LoopName} {subject : Phrase} {body : List Stmt} {ms ms' : List Mark}
    (hfor : ForMarks name subject ms) (hend : ms'.map Prod.fst = [.sign .closeBrace])
    {ts₁ ts₂ ts₃ : List Token} (h₁ : ts₁.map Token.mark = ms) (h₂ : GivesBody ts₂ body)
    (h₃ : ts₃.map Token.mark = ms') :
    GivesBody (ts₁ ++ (ts₂ ++ ts₃)) [.forOf name.binding subject.tree (.block body)] := by
  obtain ⟨before, us, after, own, rfl, hbefore, hown, hus, hafter⟩ := hfor.tokens h₁
  obtain ⟨a₁, before, rfl, ha₁, h⟩ := List.map_eq_cons_iff.mp hbefore
  obtain ⟨a₂, before, rfl, ha₂, h⟩ := List.map_eq_cons_iff.mp h
  obtain ⟨a₃, before, rfl, ha₃, h⟩ := List.map_eq_cons_iff.mp h
  obtain ⟨a₄, before, rfl, ha₄, h⟩ := List.map_eq_cons_iff.mp h
  obtain ⟨a₅, rfl, ha₅⟩ := List.map_eq_singleton_iff.mp h
  obtain ⟨b₁, after, rfl, hb₁, h⟩ := List.map_eq_cons_iff.mp hafter
  obtain ⟨b₂, rfl, hb₂⟩ := List.map_eq_singleton_iff.mp h
  obtain ⟨d, rfl, hd⟩ := List.map_eq_singleton_iff.mp ((kinds_of_marks h₃).trans hend)
  simp only [List.append_assoc, List.cons_append, List.nil_append]
  refine .one (by rw [ha₁]; rfl) fun {n room inLoop} x hn =>
    .statement (fun _ => trivial) fun r _ => ?_
  simp only [List.append_assoc, List.cons_append, List.nil_append, List.length_append,
    List.length_cons] at hn ⊢
  exact .forEach .of ha₁ ha₂ (by rw [ha₃]; rfl)
    (Ending.loopName?_eq_some ha₄ (by rw [ha₅]; rfl)) (subject.expresses.gives hown hus hb₁ (by omega)) hb₁
    (h₂.block hb₂ hd (by omega) x)

/-- **A sheet is a list of statements.** -/
theorem Sheet.gives {sheet : Sheet} {ms : List Mark} (h : sheet.Marks ms) {ts : List Token}
    (hts : ts.map Token.mark = ms) : GivesBody ts sheet.stmts := by
  induction h generalizing ts with
  | line hl => exact Line.givesBody hl hts
  | branch hl htest _ helse _ hend _ yes_ih no_ih rest_ih =>
      obtain ⟨ts₁, ts, rfl, h₁, hts⟩ := List.map_eq_append_iff.mp hts
      obtain ⟨ts₂, ts, rfl, h₂, hts⟩ := List.map_eq_append_iff.mp hts
      obtain ⟨ts₃, ts, rfl, h₃, hts⟩ := List.map_eq_append_iff.mp hts
      obtain ⟨ts₄, ts, rfl, h₄, hts⟩ := List.map_eq_append_iff.mp hts
      obtain ⟨ts₅, ts, rfl, h₅, hts⟩ := List.map_eq_append_iff.mp hts
      obtain ⟨ts₆, ts₇, rfl, h₆, h₇⟩ := List.map_eq_append_iff.mp hts
      have choice := givesBody_branch htest helse hend h₂ (yes_ih h₃) h₄ (no_ih h₅) h₆
      have all := (Line.givesBody hl h₁).append (choice.append (rest_ih h₇))
      simp only [List.append_assoc] at all
      exact all
  | each hl hfor _ hend _ body_ih rest_ih =>
      obtain ⟨ts₁, ts, rfl, h₁, hts⟩ := List.map_eq_append_iff.mp hts
      obtain ⟨ts₂, ts, rfl, h₂, hts⟩ := List.map_eq_append_iff.mp hts
      obtain ⟨ts₃, ts, rfl, h₃, hts⟩ := List.map_eq_append_iff.mp hts
      obtain ⟨ts₄, ts₅, rfl, h₄, h₅⟩ := List.map_eq_append_iff.mp hts
      have all := (Line.givesBody hl h₁).append
        ((givesBody_each hfor hend h₂ (body_ih h₃) h₄).append (rest_ih h₅))
      simp only [List.append_assoc] at all
      exact all

end Stencil
