import Stencil.Proofs.Grammar.Lines
import Stencil.Proofs.Grammar.Steps
import Stencil.Proofs.Tokens.Reads

/-!
# Grammar — whole texts

What the parser makes of the text of a function body is well-formed (`formed_of_parseBody`), and it
makes the same of the same tokens in another text (`Parsed.gives`).
-/

namespace Stencil.Script
namespace Parser

/-! ### Marks -/

theorem ended_of_marks {ts : List Token} {ms : List Mark} {newline : Bool}
    (h : ts.map Token.mark = ms ++ [(.stop, newline)])
    (hs : ∀ m ∈ ms, m.1.isStop = false ∧ m.1.Sound) : Ended ts := by
  induction ms generalizing ts with
  | nil =>
      obtain ⟨t, rfl, ht⟩ := List.map_eq_singleton_iff.mp h
      exact .stop (congrArg Prod.fst ht)
  | cons m ms ih =>
      obtain ⟨t, ts, rfl, ht, hts⟩ := List.map_eq_cons_iff.mp h
      obtain ⟨hstop, hsound⟩ := hs m List.mem_cons_self
      rw [← ht] at hstop hsound
      exact .cons hstop hsound (ih hts fun m hm => hs m (List.mem_cons_of_mem _ hm))

/-- Tokens with the same marks, the end of the one list apart. -/
theorem Ending.beside_of_marks (C : Ending) {ts us : List Token} {ms : List Mark} {newline : Bool}
    (ht : ts.map Token.mark = ms ++ [(.stop, newline)]) (hu : us.map Token.mark = ms)
    (hs : ∀ m ∈ ms, m.1.isStop = false ∧ m.1.Sound) : C.Beside ts (us ++ C.head :: C.tail) := by
  induction ms generalizing ts us with
  | nil =>
      obtain ⟨t, rfl, hm⟩ := List.map_eq_singleton_iff.mp ht
      rw [List.map_eq_nil_iff.mp hu]
      exact .stop (congrArg Prod.fst hm)
  | cons m ms ih =>
      obtain ⟨t, ts, rfl, hm, hts⟩ := List.map_eq_cons_iff.mp ht
      obtain ⟨u, us, rfl, hm', hus⟩ := List.map_eq_cons_iff.mp hu
      obtain ⟨hstop, hsound⟩ := hs m List.mem_cons_self
      have hmark := hm.trans hm'.symm
      rw [← hm] at hstop hsound
      exact .cons (congrArg Prod.fst hmark) (congrArg Prod.snd hmark) hstop hsound
        (ih hts hus fun m hm => hs m (List.mem_cons_of_mem _ hm))

/-! ### Bodies -/

theorem Ended.eq_stop {ts : List Token} (h : Ended ts) (hk : (headKind ts).isStop = true) :
    ∃ t : Token, t.kind = .stop ∧ ts = [t] := by
  cases h with
  | @stop t ht => exact ⟨t, ht, rfl⟩
  | @cons t ts ht _ _ => rw [show (headKind (t :: ts)).isStop = false from ht] at hk; cases hk

theorem run_expectStop (ts : List Token) :
    expectStop.run ts = if (headKind ts).isStop then .ok ((), ts) else unexpected.run ts := by
  cases ts with
  | nil => rfl
  | cons t ts =>
      show ((if t.kind.isStop then pure () else unexpected : Parser Unit)).run (t :: ts) = _
      cases h : t.kind.isStop <;> simp only [headKind, h] <;> rfl

theorem isStop_of_expectStop {ts rest : List Token} {u : Unit} (e : expectStop.run ts = .ok (u, rest)) :
    (headKind ts).isStop = true := by
  cases ts with
  | nil => rfl
  | cons t ts =>
      rw [run_expectStop] at e
      cases hk : (headKind (t :: ts)).isStop with
      | true => rfl
      | false => rw [hk] at e; cases e

/-- A level and itself. -/
theorem levels_follow_self (C : Ending) (n : Nat) {room : Nat} :
    C.LevelFollows n (levels n room) (levels n room) :=
  Ending.levels_follow room room (fun h => absurd h (Nat.lt_irrefl _)) (Nat.le_refl _) (Nat.le_refl _)

/-- What the parser makes of all of the tokens as the body of a function. -/
def Whole (ts : List Token) (body : List Stmt) : Prop :=
  ∃ t : Token, t.kind = .stop ∧
    (statements (levels ts.length maxNesting) false ts.length).run ts = .ok (body, [t])

end Parser

open Stencil.Script.Parser

theorem ended_of_tokens {source : String} {ts : List Token} (h : tokens source = .ok ts) :
    Ended ts := by
  obtain ⟨ms, rest, newline, hr, -, hts⟩ := reads_of_tokens h
  exact ended_of_marks hts hr.sound

theorem statements_ended {ts rest : List Token} {body : List Stmt} (he : Ended ts)
    (h : (statements (levels ts.length maxNesting) false ts.length).run ts = .ok (body, rest)) :
    FormedBody False body ∧ Ended rest := by
  obtain ⟨C, -⟩ := Ending.exists_beside he
  have follows := (@levels_follow_self C ts.length maxNesting).statements (S := Any) false
    (Nat.le_refl _) (Nat.le_refl _)
  obtain ⟨hformed, hrest, -⟩ := follows.left ts body rest he (Nat.le_refl _) trivial h
  exact ⟨by simpa using hformed, hrest⟩

theorem parseBody_eq_ok {source : String} {body : List Stmt} :
    parseBody source = .ok body ↔ ∃ ts, tokens source = .ok ts ∧ Whole ts body := by
  constructor
  · intro h
    obtain ⟨ts, htokens, h⟩ := except_bind_ok h
    obtain ⟨⟨body', rest⟩, hwhole, hr⟩ := except_bind_ok h
    cases hr
    obtain ⟨body', mid, hbody, hend⟩ := run_bind_ok hwhole
    obtain ⟨_, rest', hstop, hpure⟩ := run_bind_ok hend
    cases hpure
    obtain ⟨-, hmid⟩ := statements_ended (ended_of_tokens htokens) hbody
    obtain ⟨t, ht, rfl⟩ := hmid.eq_stop (isStop_of_expectStop hstop)
    exact ⟨ts, htokens, t, ht, hbody⟩
  · rintro ⟨ts, htokens, t, ht, hrun⟩
    have hstop : expectStop.run [t] = .ok ((), [t]) := by
      rw [run_expectStop, headKind, ht]
      rfl
    have hwhole : (wholeBody ts.length).run ts = .ok (body, [t]) := by
      rw [wholeBody, run_bind_of_ok _ hrun, run_bind_of_ok _ hstop]
      rfl
    rw [parseBody, runOn, except_bind_of_ok htokens, except_bind_of_ok hwhole]
    rfl

/-- **The parser gives well-formed trees.** -/
theorem formed_of_parseBody {source : String} {body : List Stmt} (h : parseBody source = .ok body) :
    FormedBody False body := by
  obtain ⟨ts, htokens, t, -, hrun⟩ := parseBody_eq_ok.mp h
  exact (statements_ended (ended_of_tokens htokens) hrun).1

/-- A function up to its last brace. -/
def definitionOnly (bound : Nat) : Parser Definition := do
  let begins ← acceptKeyword .function
  if begins then do
    let name ← acceptName
    definitionRest (levels bound maxNesting) bound name
  else unexpected

theorem definitionOnly_of_wholeDefinition {bound : Nat} {ts rest : List Token} {d : Definition}
    (h : (wholeDefinition bound).run ts = .ok (d, rest)) :
    ∃ mid, (definitionOnly bound).run ts = .ok (d, mid) := by
  obtain ⟨begins, mid, hbegins, h⟩ := run_bind_ok h
  cases begins with
  | false => exact ⟨rest, (run_bind_of_ok _ hbegins).trans h⟩
  | true =>
      obtain ⟨name, mid', hname, h⟩ := run_bind_ok h
      obtain ⟨d', last, hd, h⟩ := run_bind_ok h
      obtain ⟨_, end', -, hpure⟩ := run_bind_ok h
      cases hpure
      exact ⟨last, (run_bind_of_ok _ hbegins).trans ((run_bind_of_ok _ hname).trans hd)⟩

theorem definitionOnly_follows (C : Ending) (n : Nat) :
    C.Follows True n Any 1 Definition.Formed (definitionOnly n) (definitionOnly n) := by
  have level := @levels_follow_self C n maxNesting
  refine .acceptKeyword (l := 1) (.acceptName (k := 0) (l := 1) (fun word hw => ?_) ?_ (by omega))
    .unexpected (by omega)
  · refine ((level.mono (by omega)).definitionRest (by omega) (by omega) fun w hw' => ?_).imp
      fun _ hd => hd.1
    cases hw'
    exact hw
  · exact ((level.mono (by omega)).definitionRest (by omega) (by omega)
      fun w hw' => by cases hw').imp fun _ hd => hd.1

/-- **The parser gives well-formed functions.** -/
theorem formed_of_parseDefinition {source : String} {d : Definition}
    (h : parseDefinition source = .ok d) : d.Formed := by
  obtain ⟨ts, htokens, h⟩ := except_bind_ok h
  obtain ⟨⟨d', rest⟩, hwhole, hr⟩ := except_bind_ok h
  cases hr
  obtain ⟨mid, hrun⟩ := definitionOnly_of_wholeDefinition hwhole
  have ended := ended_of_tokens htokens
  obtain ⟨C, -⟩ := Ending.exists_beside ended
  exact ((definitionOnly_follows C ts.length).left ts d mid ended (Nat.le_refl _) trivial hrun).1

theorem parseDefinition_of_definitionOnly {source : String} {ts : List Token} {d : Definition}
    {t : Token} (htokens : tokens source = .ok ts) (ht : t.kind = .stop)
    (h : (definitionOnly ts.length).run ts = .ok (d, [t])) : parseDefinition source = .ok d := by
  have hstop : expectStop.run [t] = .ok ((), [t]) := by
    rw [run_expectStop, headKind, ht]
    rfl
  have hwhole : (wholeDefinition ts.length).run ts = .ok (d, [t]) := by
    obtain ⟨begins, mid, hbegins, h⟩ := run_bind_ok h
    cases begins with
    | false => exact (run_bind_of_ok _ hbegins).trans h
    | true =>
        obtain ⟨name, mid', hname, h⟩ := run_bind_ok h
        refine (run_bind_of_ok _ hbegins).trans ((run_bind_of_ok _ hname).trans ?_)
        exact (run_bind_of_ok _ h).trans (run_bind_of_ok _ hstop)
  rw [parseDefinition, runOn, except_bind_of_ok htokens, except_bind_of_ok hwhole]
  rfl

/-! ### Expressions -/

/-- Expressions up to the end, with room for so much nesting. -/
def Parser.wholeExpr (room bound : Nat) : Parser Expr := do
  let e ← (levels bound room).assignment
  expectStop
  pure e

/-- **Texts of expressions**, however deep they nest. -/
def Expresses (text : String) (e : Expr) : Prop :=
  ∃ room, Parser.runOn (Parser.wholeExpr room) text = .ok e

/-- The tokens of an expression, and what the parser makes of them up to the end. -/
theorem Expresses.exists_run {text : String} {e : Expr} (h : Expresses text e) :
    ∃ room ts, ∃ t : Token, tokens text = .ok ts ∧ t.kind = .stop ∧
      (levels ts.length room).assignment.run ts = .ok (e, [t]) := by
  obtain ⟨room, h⟩ := h
  obtain ⟨ts, htokens, h⟩ := except_bind_ok h
  obtain ⟨⟨e', left⟩, hrun, hpure⟩ := except_bind_ok h
  cases hpure
  obtain ⟨e', mid, he, hend⟩ := run_bind_ok hrun
  obtain ⟨_, mid', hstop, hpure⟩ := run_bind_ok hend
  cases hpure
  have hended := ended_of_tokens htokens
  obtain ⟨C, -⟩ := Ending.exists_beside hended
  have hmid := ((@levels_follow_self C ts.length room).assignment.left ts _ mid hended
    (Nat.le_refl _) trivial he).2.1
  obtain ⟨t, ht, rfl⟩ := hmid.eq_stop (isStop_of_expectStop hstop)
  exact ⟨room, ts, t, htokens, ht, he⟩

/-! ### The same body elsewhere -/

namespace Parser

/-- **The same statements elsewhere.** -/
theorem Whole.elsewhere {ts us : List Token} {body : List Stmt} (h : Whole ts body) {C : Ending}
    (hbeside : C.Beside ts us) (hends : C.EndsBlock) (hdeep : ¬ C.deep) {n rounds : Nat}
    (hn : ts.length ≤ n) (hr : ts.length ≤ rounds) :
    (statements (levels n maxNesting) false rounds).run us = .ok (body, C.head :: C.tail) := by
  obtain ⟨t, ht, hrun⟩ := h
  have level : C.LevelFollows ts.length (levels ts.length maxNesting) (levels n maxNesting) :=
    Ending.levels_follow _ _ (fun h => absurd h (Nat.lt_irrefl _)) (Nat.le_refl _) hn
  have follows := level.statements (S := Any) false (Nat.le_refl _) hr
  exact (follows.right ts us body [t] hbeside (Nat.le_refl _) trivial hrun (.inl hends)).gives.resolve_left
    fun hd => hdeep hd.1

theorem run_statements_cons {level : Level} {inLoop : Bool} {rounds : Nat} {t : Token}
    {ts : List Token} (hk : (t.kind.isSign .closeBrace || t.kind.isStop) = false) :
    (statements level inLoop (rounds + 1)).run (t :: ts) =
      (level.statement inLoop >>= fun s =>
        statements level inLoop rounds >>= fun others => pure (s :: others)).run (t :: ts) := by
  rw [statements_succ, run_bind_of_ok _ (run_peekKind t ts), hk]
  rfl

/-- **The first line of a body** does not matter. -/
theorem Whole.first {t u : Token} {ts : List Token} {body : List Stmt} (h : Whole (t :: ts) body)
    (hk : t.kind = u.kind) : Whole (u :: ts) body := by
  obtain ⟨last, hlast, hrun⟩ := h
  rw [List.length_cons, statements_succ, run_bind_of_ok _ (run_peekKind t ts)] at hrun
  rw [Whole, List.length_cons, statements_succ, run_bind_of_ok _ (run_peekKind u ts), ← hk]
  cases hclose : t.kind.isSign .closeBrace || t.kind.isStop with
  | true =>
      rw [hclose] at hrun
      cases hrun
      exact ⟨u, hk ▸ hlast, rfl⟩
  | false =>
      rw [hclose] at hrun
      exact ⟨last, hlast, ((LineBlind.levels _ _).statement false t.kind).bind t u ts body [last] rfl
        hk.symm hrun⟩

/-- **The same body elsewhere**, if it begins with a declaration: whether a line ends before it does
not matter either. -/
theorem Whole.elsewhere_var {t v : Token} {ts vs : List Token} {body : List Stmt} {ms : List Mark}
    {newline : Bool} (h : Whole (t :: ts) body) (ht : t.kind = .keyword .var)
    (hts : ts.map Token.mark = ms ++ [(.stop, newline)])
    (hs : ∀ m ∈ ms, m.1.isStop = false ∧ m.1.Sound) (hv : v.kind = .keyword .var)
    (hvs : vs.map Token.mark = ms) {C : Ending} (hends : C.EndsBlock) (hdeep : ¬ C.deep)
    {n rounds : Nat} (hn : ms.length + 2 ≤ n) (hr : ms.length + 2 ≤ rounds) :
    (statements (levels n maxNesting) false rounds).run (v :: (vs ++ C.head :: C.tail)) =
      .ok (body, C.head :: C.tail) := by
  have hlen : (v :: ts).length = ms.length + 2 := by
    rw [List.length_cons, ← List.length_map Token.mark, hts, List.length_append]
    rfl
  have hbeside : C.Beside (v :: ts) ((v :: vs) ++ C.head :: C.tail) := by
    refine @Ending.beside_of_marks C _ _ (v.mark :: ms) newline ?_ ?_ ?_
    · rw [List.map_cons, hts]
      rfl
    · rw [List.map_cons, hvs]
    · intro m hm
      rcases List.mem_cons.mp hm with rfl | hm
      · rw [Token.mark, hv]
        exact ⟨rfl, trivial⟩
      · exact hs m hm
  exact (h.first (ht.trans hv.symm)).elsewhere hbeside hends hdeep (by omega) (by omega)

/-- The tokens of a text that begins with the keyword `var`. -/
theorem tokens_var {source : String} {ts : List Token} {rest : List Char}
    (h : tokens source = .ok ts) (hvar : Next source.toList (.keyword .var, false) rest) :
    ∃ ms after newline, Reads source.toList ((.keyword .var, false) :: ms) after ∧
      Over after newline ∧
      ts.map Token.mark = (.keyword .var, false) :: (ms ++ [(.stop, newline)]) := by
  obtain ⟨ms, after, newline, hr, hover, hts⟩ := reads_of_tokens h
  cases hr with
  | nil => exact absurd hvar (hover.not_next rfl)
  | @cons _ mid _ m ms hs hn hr =>
      obtain ⟨rfl, rfl⟩ := hn.unique hvar
      exact ⟨ms, after, newline, .cons hs hn hr, hover, hts⟩

end Parser

end Stencil.Script
