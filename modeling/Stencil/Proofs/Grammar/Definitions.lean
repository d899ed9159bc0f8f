import Stencil.Proofs.Grammar.Forms
import Stencil.Proofs.Grammar.Whole
import Stencil.Proofs.Tokens.Within
import Stencil.Script.Function

/-!
# Grammar — definitions around a body

A function comes from its parameters and the text of its body, or from the text of its definition, which
holds the body between braces.  A body that is parsed ends where its text ends; one in a definition ends at
the brace.  The two give the same (`build_iff_parseDefinition`), whatever the body is: a brace of its own
ends the definition before its end, and a comment or a string that takes in the last brace takes in the
end as well.

Line feeds around a body change nothing (`parseBody_lineFeed_append`, `parseBody_append_lineFeed`).
-/

namespace Stencil.Script
open Stencil.Text Stencil.Script.Parser

/-! ### Bodies by their tokens -/

/-- What the parser makes of tokens with the given marks. -/
def MarksGive (ms : List Mark) (body : List Stmt) : Prop :=
  ∀ ts newline, ts.map Token.mark = ms ++ [(.stop, newline)] → Whole ts body

theorem Parser.Whole.marksGive {ts : List Token} {body : List Stmt} {ms : List Mark} {newline : Bool}
    (h : Whole ts body) (ht : ts.map Token.mark = ms ++ [(.stop, newline)])
    (hs : ∀ m ∈ ms, m.1.isStop = false ∧ m.1.Sound) : MarksGive ms body := by
  intro us newline' hu
  obtain ⟨us, ws, rfl, hus, hw⟩ := List.map_eq_append_iff.mp hu
  obtain ⟨w, rfl, hmark⟩ := List.map_eq_singleton_iff.mp hw
  have hstop : w.kind = .stop := congrArg Prod.fst hmark
  let C : Ending := ⟨w, [], by rw [hstop]; trivial, False⟩
  have hlen : ts.length = (us ++ [w]).length := by
    rw [← List.length_map Token.mark, ht, ← hus]
    simp only [List.length_append, List.length_map, List.length_singleton]
  refine ⟨w, hstop, ?_⟩
  exact h.elsewhere (C.beside_of_marks ht hus hs) (Ending.endsBlock_of_stop hstop) id
    (Nat.le_of_eq hlen) (Nat.le_of_eq hlen)

theorem parseBody_iff_reads {source : String} {body : List Stmt} :
    parseBody source = .ok body ↔ ∃ ms rest newline, Reads source.toList ms rest ∧
      Over rest newline ∧ MarksGive ms body := by
  constructor
  · intro h
    obtain ⟨ts, htokens, hwhole⟩ := parseBody_eq_ok.mp h
    obtain ⟨ms, rest, newline, hr, hover, hts⟩ := reads_of_tokens htokens
    exact ⟨ms, rest, newline, hr, hover, hwhole.marksGive hts hr.sound⟩
  · rintro ⟨ms, rest, newline, hr, hover, hgive⟩
    obtain ⟨ts, htokens, hts⟩ := tokens_of_reads hr hover
    exact parseBody_eq_ok.mpr ⟨ts, htokens, hgive ts newline hts⟩

/-! ### Line feeds -/

theorem MarksGive.line {m : Mark} {ms : List Mark} {body : List Stmt} (h : MarksGive (m :: ms) body)
    (newline : Bool) : MarksGive ((m.1, newline) :: ms) body := by
  intro us after hu
  obtain ⟨u, us, rfl, hmark, hus⟩ := List.map_eq_cons_iff.mp hu
  have hkind : u.kind = m.1 := congrArg Prod.fst hmark
  refine (h (⟨u.kind, u.position, m.2⟩ :: us) after ?_).first rfl
  rw [List.map_cons, hus, List.cons_append]
  exact congrArg (· :: _) (Prod.ext hkind rfl)

theorem Over.lineFeed_cons {cs : List Char} {newline : Bool} (h : Over cs newline) :
    Over ('\n' :: cs) true := by
  intro p
  obtain ⟨q, hq⟩ := skipGap_newline cs p false
  obtain ⟨q', e⟩ := h q
  exact ⟨q', by rw [hq, skipGap_true e]⟩

/-- What a gap after a line feed is without the line feed. -/
theorem skipGap_of_lineFeed {cs : List Char} {p : Position} {newline : Bool} {next : Cursor}
    (e : skipGap .blanks false p ('\n' :: cs) = .ok (newline, next)) :
    newline = true ∧ ∃ q before, skipGap .blanks false q cs = .ok (before, next) := by
  obtain ⟨q, hq⟩ := skipGap_newline cs p false
  rw [hq, skipGap_line .blanks false] at e
  cases h : skipGap .blanks false q cs with
  | error e' => rw [h] at e; cases e
  | ok r =>
      rw [h] at e
      cases e
      exact ⟨rfl, q, r.1, h⟩

theorem Reads.of_lineFeed {cs rest : List Char} {ms : List Mark} {newline : Bool}
    (h : Reads ('\n' :: cs) ms rest) (ho : Over rest newline) :
    (ms = [] ∧ ∃ after, Over cs after) ∨
      ∃ m ms', ms = (m.1, true) :: ms' ∧ Reads cs (m :: ms') rest := by
  cases h with
  | nil =>
      obtain ⟨q, e⟩ := ho .start
      obtain ⟨-, q', before, e'⟩ := skipGap_of_lineFeed e
      exact .inl ⟨rfl, before, over_of_run e' rfl⟩
  | @cons _ mid _ m ms hs hn hr =>
      obtain ⟨text, q, q', e₁, e₂⟩ := hn .start
      obtain ⟨hline, p, before, e'⟩ := skipGap_of_lineFeed e₁
      refine .inr ⟨(m.1, before), ms, ?_, .cons hs (next_of_run e' e₂ hs) hr⟩
      rw [← hline]

/-- **A line feed before a body.** -/
theorem parseBody_lineFeed_append {source : String} {body : List Stmt} :
    parseBody ("\n" ++ source) = .ok body ↔ parseBody source = .ok body := by
  have htext : ("\n" ++ source).toList = '\n' :: source.toList := by
    rw [String.toList_append]
    rfl
  rw [parseBody_iff_reads, parseBody_iff_reads, htext]
  constructor
  · rintro ⟨ms, rest, newline, hr, hover, hgive⟩
    rcases hr.of_lineFeed hover with ⟨rfl, after, hcs⟩ | ⟨m, ms, rfl, hmore⟩
    · exact ⟨[], _, after, .nil, hcs, hgive⟩
    · exact ⟨m :: ms, rest, newline, hmore, hover, hgive.line m.2⟩
  · rintro ⟨ms, rest, newline, hr, hover, hgive⟩
    cases ms with
    | nil =>
        cases hr
        exact ⟨[], _, true, .nil, hover.lineFeed_cons, hgive⟩
    | cons m ms => exact ⟨_, rest, newline, hr.newline, hover, hgive.line true⟩

/-- **A line feed after a body.** -/
theorem parseBody_append_lineFeed {source : String} {body : List Stmt}
    (h : parseBody source = .ok body) : parseBody (source ++ "\n") = .ok body := by
  obtain ⟨ms, rest, newline, hr, hover, hgive⟩ := parseBody_iff_reads.mp h
  refine parseBody_iff_reads.mpr ⟨ms, rest ++ ['\n'], true, ?_, fun p => ?_, hgive⟩
  · rw [String.toList_append]
    exact hr.append_apart (.cons (by decide))
  · obtain ⟨q, e⟩ := hover p
    obtain ⟨q', e'⟩ := skipGap_lineFeed e rfl [] p
    exact ⟨q', e'⟩

/-! ### A body in braces -/

theorem Parser.Ending.Beside.length {C : Ending} {ts us : List Token} (h : C.Beside ts us) :
    us.length = ts.length + C.tail.length := by
  induction h with
  | stop _ => rw [List.length_cons, List.length_singleton, Nat.add_comm]
  | cons _ _ _ _ _ ih => simp only [List.length_cons, ih, Nat.add_right_comm]

theorem Parser.Ended.eq_singleton {ts : List Token} (h : Ended ts) (hl : ts.length = 1) :
    ∃ t : Token, t.kind = .stop ∧ ts = [t] := by
  cases h with
  | stop ht => exact ⟨_, ht, rfl⟩
  | cons _ _ h =>
      have := h.length_pos
      rw [List.length_cons] at hl
      omega

/-- Tokens of a body, with a brace and the end after them. -/
structure InBraces (us : List Token) (close last : Token) : Prop where
  sound : ∀ t ∈ us, t.kind.isStop = false ∧ t.kind.Sound
  close_kind : close.kind = .sign .closeBrace
  last_kind : last.kind = .stop

namespace InBraces

variable {us : List Token} {close last : Token} {body : List Stmt} {n : Nat}

/-- The tokens up to a token that closes, and with it. -/
theorem beside (h : InBraces us close last) (C : Ending) :
    C.Beside (us ++ [last]) (us ++ C.head :: C.tail) := by
  refine @Ending.beside_of_marks C _ us (us.map Token.mark) last.newlineBefore ?_ rfl ?_
  · rw [List.map_append, List.map_singleton, Token.mark, h.last_kind]
  · intro m hm
    obtain ⟨t, ht, rfl⟩ := List.mem_map.mp hm
    exact h.sound t ht

theorem ended (h : InBraces us close last) : Ended (us ++ [close, last]) := by
  obtain ⟨hsound, hclose, hlast⟩ := h
  induction us with
  | nil =>
      have hend : Ended [last] := .stop hlast
      exact .cons (by rw [hclose]; rfl) (by rw [hclose]; trivial) hend
  | cons u us ih =>
      obtain ⟨hu, hsound⟩ := List.forall_mem_cons.mp hsound
      exact .cons hu.1 hu.2 (ih hsound)

/-- A body of which the brace and the end are left. -/
theorem statements_of_whole (h : InBraces us close last) (hw : Whole (us ++ [last]) body)
    (hn : us.length + 2 ≤ n) :
    (statements (levels n maxNesting) false n).run (us ++ [close, last]) =
      .ok (body, [close, last]) := by
  let C : Ending := ⟨close, [last], by rw [h.close_kind]; trivial, False⟩
  have hends : C.EndsBlock := Ending.endsBlock_of_brace h.close_kind
  have hlen : (us ++ [last]).length ≤ n := by
    rw [List.length_append, List.length_singleton]
    omega
  exact hw.elsewhere (h.beside C) hends id hlen hlen

theorem whole_of_statements (h : InBraces us close last)
    (e : (statements (levels n maxNesting) false n).run (us ++ [close, last]) =
      .ok (body, [close, last])) (hn : us.length + 2 ≤ n) : Whole (us ++ [last]) body := by
  let C : Ending := ⟨close, [last], by rw [h.close_kind]; trivial, False⟩
  let A : Ending := ⟨last, [], by rw [h.last_kind]; trivial, False⟩
  have hlen : (us ++ [last]).length ≤ n := by
    rw [List.length_append, List.length_singleton]
    omega
  -- the statements without the brace, with as many rounds as with it
  have hlocal := (Ending.levels_local (C := C) n maxNesting).statements (S := Any) false n
  obtain ⟨rest, hrest, hb⟩ := hlocal.returns h.close_kind _ _ body _ (h.beside C) e
    (show 1 + 0 < 2 from Nat.lt_succ_self _)
  -- and with as many as the body alone has
  have level : A.LevelFollows (us ++ [last]).length (levels n maxNesting)
      (levels (us ++ [last]).length maxNesting) :=
    Ending.levels_follow _ _ (fun h => absurd h (Nat.lt_irrefl _)) hlen (Nat.le_refl _)
  have hends : A.EndsBlock := Ending.endsBlock_of_stop h.last_kind
  have hlength := hb.length
  obtain ⟨t, ht, rfl⟩ := hb.ended.eq_singleton (Nat.add_right_cancel hlength.symm)
  obtain hdeep | ⟨rest', e', hb'⟩ := (level.statements (S := Any) false hlen (Nat.le_refl _)).right
    _ _ body [t] (h.beside A) (Nat.le_refl _) trivial hrest (.inl hends)
  · exact hdeep.1.elim
  · cases hb' with
    | stop _ => exact ⟨last, h.last_kind, e'⟩
    | cons _ _ hs _ _ => rw [ht] at hs; cases hs

/-- What follows a body that is read up to a brace before the end. -/
theorem rest_of_statements (h : InBraces us close last) {mid mid' rest : List Token} {u v : Unit}
    (e : (statements (levels n maxNesting) false n).run (us ++ [close, last]) = .ok (body, mid))
    (e₁ : (expectSign .closeBrace).run mid = .ok (u, mid')) (e₂ : expectStop.run mid' = .ok (v, rest)) :
    mid = [close, last] := by
  let C : Ending := ⟨close, [last], by rw [h.close_kind]; trivial, False⟩
  obtain ⟨hmid, hsuffix⟩ := ((Ending.levels_local (C := C) n maxNesting).statements (S := Any) false
    n).takes _ body mid h.ended e
  have htail : [close, last] <:+ us ++ [close, last] := List.suffix_append _ _
  cases hmid with
  | stop ht =>
      rw [run_expectSign_false (by rw [ht]; rfl)] at e₁
      cases e₁
  | @cons t ts _ _ hts =>
      cases hsign : t.kind.isSign .closeBrace with
      | false =>
          rw [run_expectSign_false hsign] at e₁
          cases e₁
      | true =>
          rw [run_expectSign_true hsign] at e₁
          cases e₁
          obtain ⟨w, -, rfl⟩ := hts.eq_stop (isStop_of_expectStop e₂)
          exact (List.suffix_of_suffix_length_le hsuffix htail (Nat.le_refl 2)).eq_of_length rfl

/-- **Reading a body in braces.** -/
theorem run_iff (h : InBraces us close last) (hn : us.length + 2 ≤ n) {β : Type} {f : List Stmt → β}
    {b : β} :
    (∃ rest, (do
      let body ← statements (levels n maxNesting) false n
      expectSign .closeBrace
      expectStop
      pure (f body) : Parser β).run (us ++ [close, last]) = .ok (b, rest)) ↔
      ∃ body, Whole (us ++ [last]) body ∧ b = f body := by
  constructor
  · rintro ⟨rest, e⟩
    obtain ⟨body, mid, hbody, e⟩ := run_bind_ok e
    obtain ⟨u, mid', hclose, e⟩ := run_bind_ok e
    obtain ⟨v, rest', hstop, e⟩ := run_bind_ok e
    cases e
    obtain rfl := h.rest_of_statements hbody hclose hstop
    exact ⟨body, h.whole_of_statements hbody hn, rfl⟩
  · rintro ⟨body, hw, rfl⟩
    refine ⟨[last], ?_⟩
    rw [run_bind_of_ok _ (h.statements_of_whole hw hn),
      run_bind_of_ok _ (run_expectSign_true (by rw [h.close_kind]; rfl) _)]
    have hstop : expectStop.run [last] = .ok ((), [last]) := by
      rw [run_expectStop, headKind, h.last_kind]
      rfl
    rw [run_bind_of_ok _ hstop]
    rfl

end InBraces

/-! ### The text of a definition -/

/-- The text of a definition with parameters, and with a body on lines of its own. -/
def writtenDefinition (parameters : List String) (body : String) : String :=
  "function(" ++ ", ".intercalate parameters ++ ")\x7b\n" ++ body ++ "\n\x7d"

/-- The tokens of parameters and the parenthesis after them. -/
def parameterMarks : List String → List Mark
  | [] => [(.sign .closeParen, false)]
  | [word] => [(.name word, false), (.sign .closeParen, false)]
  | word :: next :: words =>
    (.name word, false) :: (.sign .comma, false) :: parameterMarks (next :: words)

/-- The tokens of a definition up to its body. -/
def signatureMarks (parameters : List String) : List Mark :=
  (.keyword .function, false) :: (.sign .openParen, false) ::
    (parameterMarks parameters ++ [(.sign .openBrace, false)])

theorem reads_parameters {words : List String} (hw : ∀ word ∈ words, isName word = true)
    (rest : List Char) :
    Reads ((", ".intercalate words).toList ++ ')' :: rest) (parameterMarks words) rest := by
  have close : Reads (')' :: rest) [(.sign .closeParen, false)] rest :=
    .cons rfl (.alone .closeParen (by decide) rest) .nil
  induction words with
  | nil => exact close
  | cons word words ih =>
      obtain ⟨hword, hwords⟩ := List.forall_mem_cons.mp hw
      cases words with
      | nil =>
          rw [String.intercalate_singleton]
          exact .cons rfl (.nameBefore word hword (by decide)) close
      | cons next words =>
          have others := ih hwords
          obtain ⟨m, ms, hms⟩ : ∃ m ms, parameterMarks (next :: words) = m :: ms := by
            cases words <;> exact ⟨_, _, rfl⟩
          rw [hms] at others
          rw [String.intercalate_cons_cons, String.toList_append, String.toList_append,
            List.append_assoc, List.append_assoc, parameterMarks, hms]
          exact .cons rfl (.nameBefore word hword (by decide))
            (.cons rfl (.alone .comma (by decide) _) others.space)

theorem reads_signature {parameters : List String} (hp : ∀ p ∈ parameters, isName p = true)
    (body : String) :
    Reads ((writtenDefinition parameters body).toList) (signatureMarks parameters)
      ('\n' :: (body.toList ++ closingLine)) := by
  have htext : (writtenDefinition parameters body).toList = 'f' :: ['u', 'n', 'c', 't', 'i', 'o', 'n'] ++
      '(' :: ((", ".intercalate parameters).toList ++ ')' :: '\x7b' :: '\n' :: (body.toList ++ closingLine)) := by
    simp only [writtenDefinition, String.toList_append, List.append_assoc]
    rfl
  rw [htext]
  refine .cons rfl (.wordBefore 'f' _ (by decide) (by decide) (by decide)) ?_
  refine .cons rfl (.alone .openParen (by decide) _) ((reads_parameters hp _).append ?_)
  exact .cons rfl (.alone .openBrace (by decide) _) .nil

theorem gives_parameters {words : List String} {ps rest : List Token} {n : Nat}
    (h : ps.map Token.mark = parameterMarks words) (hn : words.length ≤ n) :
    ∃ t : Token, t.kind = .sign .closeParen ∧
      Gives False (parameters n) (ps ++ rest) (words, none) (t :: rest) := by
  induction words generalizing ps n with
  | nil =>
      obtain ⟨t, rfl, ht⟩ := List.map_eq_singleton_iff.mp h
      have hkind : t.kind = .sign .closeParen := congrArg Prod.fst ht
      exact ⟨t, hkind, .parametersNil (by rw [List.singleton_append, headKind, hkind]; rfl)⟩
  | cons word words ih =>
      obtain ⟨n, rfl⟩ : ∃ m, n = m + 1 := ⟨n - 1, by rw [List.length_cons] at hn; omega⟩
      cases words with
      | nil =>
          obtain ⟨t, ps, rfl, ht, h⟩ := List.map_eq_cons_iff.mp h
          obtain ⟨close, rfl, hclose⟩ := List.map_eq_singleton_iff.mp h
          have hkind : close.kind = .sign .closeParen := congrArg Prod.fst hclose
          have hcomma : close.kind.isSign .comma = false := by
            rw [hkind]
            rfl
          exact ⟨close, hkind, .parametersOne (congrArg Prod.fst ht) hcomma⟩
      | cons next words =>
          obtain ⟨t, ps, rfl, ht, h⟩ := List.map_eq_cons_iff.mp h
          obtain ⟨comma, ps, rfl, hcomma, h⟩ := List.map_eq_cons_iff.mp h
          obtain ⟨close, hclose, others⟩ := ih h (Nat.le_of_succ_le_succ hn)
          exact ⟨close, hclose,
            .parametersCons (congrArg Prod.fst ht) (congrArg Prod.fst hcomma) others⟩

/-- A definition from its parameters on. -/
theorem run_wholeDefinition_parameters {t u : Token} {ts : List Token} {n : Nat}
    (ht : t.kind = .keyword .function) (hu : u.kind = .sign .openParen) :
    (wholeDefinition n).run (t :: u :: ts) = (do
      let (names, rest) ← parameters n
      expectSign .closeParen
      expectSign .openBrace
      let body ← statements (levels n maxNesting) false n
      expectSign .closeBrace
      expectStop
      pure ⟨none, names, rest, body⟩ : Parser Definition).run ts := by
  rw [wholeDefinition, acceptKeyword_eq, run_bind_of_ok _ (run_accept_true rfl (by rw [ht]; rfl) _),
    if_pos rfl, run_bind_of_ok _ (run_acceptName_none (by rw [hu]; exact fun _ h => by cases h) _)]
  simp only [definitionRest, braced, bind_assoc, pure_bind]
  rw [run_bind_of_ok _ (run_expectSign_true (by rw [hu]; rfl) _)]

/-- **A definition after its signature.** -/
theorem run_wholeDefinition {words : List String} {hs us : List Token} {n : Nat}
    (h : hs.map Token.mark = signatureMarks words) (hn : words.length ≤ n) :
    (wholeDefinition n).run (hs ++ us) = (do
      let body ← statements (levels n maxNesting) false n
      expectSign .closeBrace
      expectStop
      pure ⟨none, words, none, body⟩ : Parser Definition).run us := by
  obtain ⟨t₀, hs, rfl, h₀, h⟩ := List.map_eq_cons_iff.mp h
  obtain ⟨t₁, hs, rfl, h₁, h⟩ := List.map_eq_cons_iff.mp h
  obtain ⟨ps, more, rfl, hps, h⟩ := List.map_eq_append_iff.mp h
  obtain ⟨brace, rfl, hbrace⟩ := List.map_eq_singleton_iff.mp h
  have hbraceKind : brace.kind = .sign .openBrace := congrArg Prod.fst hbrace
  obtain ⟨close, hclose, hparameters⟩ := @gives_parameters words ps (brace :: us) n hps hn
  have htext : t₀ :: t₁ :: (ps ++ [brace]) ++ us = t₀ :: t₁ :: (ps ++ brace :: us) := by
    simp only [List.cons_append, List.append_assoc, List.nil_append]
  rw [htext, run_wholeDefinition_parameters (congrArg Prod.fst h₀) (congrArg Prod.fst h₁),
    run_bind_of_ok _ hparameters.run, run_bind_of_ok _ (run_expectSign_true (by rw [hclose]; rfl) _),
    run_bind_of_ok _ (run_expectSign_true (by rw [hbraceKind]; rfl) _)]

/-- What parameters can begin with. -/
theorem kind_of_parameters {t : Token} {ts rest : List Token} {found : List String × Option String}
    {n : Nat} (e : (parameters (n + 1)).run (t :: ts) = .ok (found, rest)) :
    (∃ sign, t.kind = .sign sign) ∨ ∃ word, t.kind = .name word := by
  by_contra hno
  obtain ⟨hsign, hname⟩ := not_or.mp hno
  have hnot : ∀ sign, t.kind.isSign sign = false := by
    intro sign
    cases h : t.kind.isSign sign with
    | false => rfl
    | true => exact absurd ⟨sign, eq_sign_of_isSign h⟩ hsign
  rw [parameters, run_bind_of_ok _ (run_atSign _ t ts), hnot, if_neg Bool.false_ne_true,
    run_bind_of_ok _ (run_acceptSign_false (hnot _) ts), if_neg Bool.false_ne_true, expectName] at e
  simp only [bind_assoc] at e
  rw [run_bind_of_ok _ (run_acceptName_none (fun word h => hname ⟨word, h⟩) ts)] at e
  cases e

theorem length_parameterMarks : ∀ words : List String, words.length ≤ (parameterMarks words).length
  | [] => Nat.zero_le _
  | [_] => Nat.le_succ 1
  | _ :: next :: words => by
      have := length_parameterMarks (next :: words)
      simp only [parameterMarks, List.length_cons] at this ⊢
      omega

/-- The tokens of a definition around a body. -/
theorem inBraces_of_marks {words : List String} {ts : List Token} {ms : List Mark}
    {newline newline' : Bool} (hsound : ∀ m ∈ ms, m.1.isStop = false ∧ m.1.Sound)
    (h : ts.map Token.mark = signatureMarks words ++ (ms ++ [(.sign .closeBrace, newline)]) ++
      [(.stop, newline')]) :
    ∃ hs us close last, ts = hs ++ (us ++ [close, last]) ∧ hs.map Token.mark = signatureMarks words ∧
      (us ++ [last]).map Token.mark = ms ++ [(.stop, newline')] ∧ words.length ≤ ts.length ∧
      us.length + 2 ≤ ts.length ∧ InBraces us close last := by
  rw [List.append_assoc, List.append_assoc] at h
  obtain ⟨hs, rest, rfl, hhs, h⟩ := List.map_eq_append_iff.mp h
  obtain ⟨us, rest, rfl, hus, h⟩ := List.map_eq_append_iff.mp h
  obtain ⟨close, rest, rfl, hclose, h⟩ := List.map_eq_cons_iff.mp h
  obtain ⟨last, rfl, hlast⟩ := List.map_eq_singleton_iff.mp h
  have hwords : words.length ≤ hs.length := by
    have := length_parameterMarks words
    rw [← List.length_map Token.mark, hhs]
    simp only [signatureMarks, List.length_cons, List.length_append]
    omega
  refine ⟨hs, us, close, last, rfl, hhs, ?_, ?_, ?_, fun t ht => ?_, congrArg Prod.fst hclose,
    congrArg Prod.fst hlast⟩
  · rw [List.map_append, hus, List.map_singleton, hlast]
  · rw [List.length_append]
    omega
  · rw [List.length_append, List.length_append]
    exact Nat.le_add_left _ _
  · exact hsound t.mark (hus ▸ List.mem_map_of_mem ht)

/-- **Definitions around a body** parse as the body does. -/
theorem parseDefinition_writtenDefinition {words : List String} {source : String} {d : Definition}
    (hw : ∀ word ∈ words, isName word = true) :
    parseDefinition (writtenDefinition words source) = .ok d ↔
      ∃ body, parseBody source = .ok body ∧ d = ⟨none, words, none, body⟩ := by
  have hsignature := reads_signature hw source
  have hlines : ("\n" ++ source).toList = '\n' :: source.toList := by
    rw [String.toList_append]
    rfl
  constructor
  · intro h
    obtain ⟨ts, htokens, h⟩ := except_bind_ok h
    obtain ⟨⟨d', last⟩, hrun, hd⟩ := except_bind_ok h
    cases hd
    obtain ⟨marks, rest, newline, hr, hover, hts⟩ := reads_of_tokens htokens
    obtain ⟨more, rfl, hmore⟩ := hsignature.begins hr hover
    obtain ⟨ms, rest', newline', rfl, hms, hover'⟩ :=
      @Reads.within ('\n' :: source.toList) rest more newline hmore hover
    obtain ⟨hs, us, close, w, rfl, hhs, hmarks, hwords, hlen, hin⟩ := inBraces_of_marks hms.sound hts
    rw [run_wholeDefinition hhs hwords] at hrun
    obtain ⟨body, hwhole, rfl⟩ := (hin.run_iff hlen).mp ⟨last, hrun⟩
    rw [← hlines] at hms
    exact ⟨body, parseBody_lineFeed_append.mp (parseBody_iff_reads.mpr ⟨ms, rest', newline', hms, hover',
      hwhole.marksGive hmarks hms.sound⟩), rfl⟩
  · rintro ⟨body, hparse, rfl⟩
    obtain ⟨ms, rest, newline, hr, hover, hgive⟩ :=
      parseBody_iff_reads.mp (parseBody_lineFeed_append.mpr hparse)
    have hclose : Reads ['\x7d'] [(.sign .closeBrace, false)] [] :=
      .cons rfl (.alone .closeBrace (by decide) []) .nil
    rw [hlines] at hr
    obtain ⟨ts, htokens, hts⟩ := tokens_of_reads (hsignature.append (hr.lineFed hover hclose))
      (show Over [] false from fun p => ⟨p, rfl⟩)
    obtain ⟨hs, us, close, w, rfl, hhs, hmarks, hwords, hlen, hin⟩ := inBraces_of_marks hr.sound hts
    have hwhole := hgive _ _ hmarks
    obtain ⟨last, hrun⟩ :=
      (hin.run_iff hlen (f := (⟨none, words, none, ·⟩ : List Stmt → Definition))).mpr ⟨body, hwhole, rfl⟩
    rw [← run_wholeDefinition hhs hwords] at hrun
    rw [parseDefinition, runOn, except_bind_of_ok htokens, except_bind_of_ok hrun]
    rfl

/-! ### Builders -/

theorem build_eq_ok_iff {words : List String} {source : String} {d : Definition}
    (hw : ∀ word ∈ words, isName word = true) :
    Definition.build words source = .ok d ↔
      ∃ body, parseBody source = .ok body ∧ d = ⟨none, words, none, body⟩ := by
  have hfind : words.find? (!isName ·) = none :=
    List.find?_eq_none.mpr fun word hword => by rw [hw word hword]; decide
  rw [Definition.build, hfind]
  cases parseBody source with
  | error e =>
      constructor
      · intro h
        cases h
      · rintro ⟨_, h, -⟩
        cases h
  | ok body =>
      constructor
      · intro h
        cases h
        exact ⟨body, rfl, rfl⟩
      · rintro ⟨_, h, rfl⟩
        cases h
        rfl

/-- **The builders agree.**  A function is built from names and the text of its body if and only if the
text of its definition parses, and to the same function. -/
theorem build_iff_parseDefinition {words : List String} {source : String} {d : Definition}
    (hw : ∀ word ∈ words, isName word = true) :
    Definition.build words source = .ok d ↔ parseDefinition (writtenDefinition words source) = .ok d :=
  (build_eq_ok_iff hw).trans (parseDefinition_writtenDefinition hw).symm

end Stencil.Script
