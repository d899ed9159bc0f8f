import Stencil.Proofs.Grammar.Definitions
import Stencil.Proofs.Sheets.Compiled
import Stencil.Script.Tree.Outline

/-!
# Compile — directives that are complete by themselves

A directive may open what a later one closes.  Where none does, a body is put together from what its
parts are alone (`parseBody_ofPieces`): statements stay as they are, and each run of texts and values
between them is one statement, which adds the run to the output from left to right.

At a splice a statement that ended with its text has to end in the same way before a new line and the
name of the output.  No form of statement goes on there, and none needs more (`gives_statements`).  An
expression is closed off by its parentheses.
-/

namespace Stencil
open Script Script.Parser

/-! ### Statements before others -/

/-- **Statements go on** behind the tokens of a body, wherever a statement can end. -/
theorem Script.Parser.Ending.gives_statements {C : Ending} (hends : C.EndsStatement) {l r : Level}
    {inLoop : Bool} {k bound least rounds : Nat} (h : C.LevelFollows k l r) {ts us after : List Token}
    {body others : List Stmt} {t : Token} (ht : t.kind = .stop) (hb : C.Beside ts us)
    (hk : ts.length ≤ k) (hrun : (statements l inLoop bound).run ts = .ok (body, [t]))
    (ho : ∀ rounds, least ≤ rounds →
      Gives C.deep (statements r inLoop rounds) (C.head :: C.tail) others after)
    (hr : least + ts.length ≤ rounds + 1) :
    Gives C.deep (statements r inLoop rounds) us (body ++ others) after := by
  induction bound generalizing ts us body rounds with
  | zero =>
      cases hrun
      cases hb with
      | stop _ =>
          rw [List.length_singleton] at hr
          exact ho rounds (by omega)
      | cons _ _ _ _ hb => cases hb
  | succ bound ih =>
      rw [statements_succ] at hrun
      cases hb with
      | stop hstop =>
          rw [run_bind_of_ok _ (run_peekKind _ _), hstop] at hrun
          cases hrun
          rw [List.length_singleton] at hr
          exact ho rounds (by omega)
      | @cons t₀ u ts us hkind hline hstop hsound hb =>
          have hbeside := Beside.cons hkind hline hstop hsound hb
          rw [run_bind_of_ok _ (run_peekKind t₀ ts)] at hrun
          cases hclose : t₀.kind.isSign .closeBrace || t₀.kind.isStop with
          | true =>
              -- a brace is left over, which is not the end
              rw [hclose] at hrun
              cases hrun
              rw [ht] at hstop
              cases hstop
          | false =>
              rw [hclose] at hrun
              obtain ⟨s, mid, hs, hrun⟩ := run_bind_ok hrun
              obtain ⟨body, left, hmore, hpure⟩ := run_bind_ok hrun
              cases hpure
              obtain ⟨-, -, hlen⟩ := (h.statement inLoop).left _ s mid hbeside.ended hk trivial hs
              have := hb.ended.length_pos
              rw [List.length_cons] at hlen hr
              obtain ⟨rounds, rfl⟩ : ∃ n, rounds = n + 1 := ⟨rounds - 1, by omega⟩
              rcases (h.statement inLoop).right _ _ s mid hbeside hk trivial hs (.inl hends) with
                ⟨hdeep, pos, e⟩ | ⟨mid', e, hmid⟩
              · refine .inl ⟨hdeep, pos, ?_⟩
                rw [statements_succ, run_bind_of_ok _ (run_peekKind u us), ← hkind, hclose]
                exact run_bind_of_error _ e
              · rw [List.length_cons] at hk
                exact .statementsCons (by rw [headKind, ← hkind, hclose]) (.of_run e)
                  (ih hmid (by omega) hmore (by omega))

namespace Template

/-! ### What parts are alone -/

/-- **What a part of a template can be**: text, the value of an expression, or statements. -/
inductive Content where
  | text (cs : List Char)
  | value (escapes : Bool) (e : Expr)
  | statements (body : List Stmt)

/-- What a part is alone.  The text of an expression holds just the expression, and does not end in a
comment to the end of its line. -/
inductive Part.Is : Part → Content → Prop where
  | text {cs : List Char} : Is (.text cs) (.text cs)
  | value {escapes : Bool} {inner : List Char} {e : Expr} : Expresses (String.ofList inner) e →
      ¬ OpenComment inner → Is (.directive (valueKind escapes) inner) (.value escapes e)
  | statements {inner : List Char} {body : List Stmt} : parseBody (String.ofList inner) = .ok body →
      Is (.directive .evaluate inner) (.statements body)

/-- A run of contents without statements: a text, and then values, each with the text after it. -/
structure Passage where
  first : List Char
  values : List ((Bool × Expr) × List Char)

/-- A passage up to a value and the text after it. -/
def Passage.extend (left : Expr) (next : (Bool × Expr) × List Char) : Expr :=
  .binary .add (.binary .add left (writtenValue next.1.1 next.1.2)) (.string (String.ofList next.2))

/-- The texts and values of a passage, added from left to right. -/
def Passage.tree (passage : Passage) : Expr :=
  passage.values.foldl Passage.extend (.string (String.ofList passage.first))

/-- The passages among contents: the first, and each later one with the statements before it. -/
def passages : List Content → Passage × List (List Stmt × Passage)
  | [] => (⟨[], []⟩, [])
  | .text cs :: rest =>
    (⟨cs ++ (passages rest).1.first, (passages rest).1.values⟩, (passages rest).2)
  | .value escapes e :: rest =>
    (⟨[], ((escapes, e), (passages rest).1.first) :: (passages rest).1.values⟩, (passages rest).2)
  | .statements body :: rest => (⟨[], []⟩, (body, (passages rest).1) :: (passages rest).2)

/-- Statements, and after those of each directive one that adds the next passage to the output. -/
def interleaved (later : List (List Stmt × Passage)) : List Stmt :=
  later.flatMap fun (body, passage) => body ++ [appending passage.tree]

/-- **The statements that contents are put together to.** -/
def composed (contents : List Content) : List Stmt :=
  appending (passages contents).1.tree :: interleaved (passages contents).2

theorem Part.Is.closed {part : Part} {content : Content} (h : part.Is content) : part.Closed := by
  cases h with
  | text => trivial
  | value he hopen =>
      obtain ⟨_, ts, _, htokens, -, -⟩ := he.exists_run
      exact ⟨⟨ts, htokens⟩, fun _ => hopen⟩
  | statements hbody =>
      obtain ⟨ts, htokens, -⟩ := parseBody_eq_ok.mp hbody
      exact ⟨⟨ts, htokens⟩, fun h => absurd rfl h⟩

theorem closed_of_is {parts : List Part} {contents : List Content}
    (h : List.Forall₂ Part.Is parts contents) : ∀ part ∈ parts, part.Closed := by
  induction h with
  | nil => nofun
  | cons hpart _ ih =>
      intro part hmem
      rcases List.mem_cons.mp hmem with rfl | hmem
      · exact hpart.closed
      · exact ih part hmem

/-! ### Tokens up to the end -/

/-- Tokens that parse to statements up to the end. -/
def GivesAll (x : List Token) (stmts : List Stmt) : Prop :=
  ∃ t : Token, t.kind = .stop ∧ ∀ n rounds, x.length ≤ n → x.length ≤ rounds →
    Gives True (Parser.statements (levels n maxNesting) false rounds) x stmts [t]

theorem GivesAll.stop {t : Token} (ht : t.kind = .stop) : GivesAll [t] [] :=
  ⟨t, ht, fun _ _ _ _ => .statementsNil (by rw [headKind, ht]; rfl)⟩

/-- What the tokens of statements give on lines of their own. -/
theorem marksGive_lined {inner : List Char} {own : List Mark} {body : List Stmt}
    (hbody : parseBody (String.ofList inner) = .ok body) (hown : Alone inner own) :
    MarksGive (lined own) body ∧ ∀ m ∈ lined own, m.1.isStop = false ∧ m.1.Sound := by
  obtain ⟨rest, newline, hr, hover⟩ := hown
  obtain ⟨ts, htokens, hwhole⟩ := parseBody_eq_ok.mp hbody
  obtain ⟨ts', htokens', hts⟩ := tokens_of_reads (by rwa [String.toList_ofList]) hover
  cases htokens.symm.trans htokens'
  have hgive := hwhole.marksGive hts hr.sound
  have hsound := hr.sound
  cases own with
  | nil => exact ⟨hgive, hsound⟩
  | cons m own =>
      refine ⟨hgive.line true, fun m' hm' => ?_⟩
      rcases List.mem_cons.mp hm' with rfl | hm'
      · exact hsound m List.mem_cons_self
      · exact hsound m' (List.mem_cons_of_mem _ hm')

/-- **Statements of a directive** stay as they are before the output goes on. -/
theorem GivesAll.afterStatements {inner : List Char} {own : List Mark} {body stmts : List Stmt}
    (hbody : parseBody (String.ofList inner) = .ok body) (hown : Alone inner own)
    {us x : List Token} {p q : Token} (hus : us.map Token.mark = lined own)
    (hp : p.kind = .name "__p") (hline : p.newlineBefore = true) (hq : q.kind = .sign .plusAssign)
    (h : GivesAll (p :: q :: x) stmts) : GivesAll (us ++ p :: q :: x) (body ++ stmts) := by
  obtain ⟨last, hlast, hgives⟩ := h
  obtain ⟨hgive, hsound⟩ := marksGive_lined hbody hown
  let C : Ending := ⟨p, q :: x, by
    rw [hp]
    exact ⟨by decide, by rw [headKind, hq]; rfl⟩, True⟩
  have hends : C.EndsStatement := by rw [Ending.EndsStatement, show C.head = p from rfl, hline,
    Bool.or_true]
  let stop : Token := ⟨.stop, .start, false⟩
  have hmarks : (us ++ [stop]).map Token.mark = lined own ++ [(.stop, false)] := by
    rw [List.map_append, hus]
    rfl
  obtain ⟨t, ht, hrun⟩ := hgive _ false hmarks
  refine ⟨last, hlast, fun n rounds hn hrounds => ?_⟩
  have hlen : (us ++ [stop]).length = us.length + 1 := List.length_append
  rw [List.length_append] at hn hrounds
  have hrest : 0 < (p :: q :: x).length := Nat.zero_lt_succ _
  exact C.gives_statements hends (Ending.levels_follow maxNesting maxNesting (fun _ => trivial)
    (Nat.le_refl _) (by omega)) ht (C.beside_of_marks hmarks hus hsound) (Nat.le_refl _) hrun
    (fun rounds hr => hgives n rounds (by omega) hr) (by omega)

/-! ### Passages -/

/-- The tokens of a passage whose first text goes on from an open string: the string, what is added to
it, and the semicolon, with others after it. -/
structure Opened (run : List Char) (passage : Passage) (t : Token) (us : List Token) (last : Token)
    (x : List Token) : Prop where
  string : t.kind = .string (String.ofList (run ++ passage.first))
  semicolon : last.kind = .sign .semicolon
  length : 2 * passage.values.length ≤ us.length
  ends : EndsText (headKind (us ++ last :: x))
  chain : ∀ {n room rounds : Nat} {left : Expr}, us.length < n → 2 * passage.values.length ≤ rounds →
    Gives True (Parser.chain (infixed (levels n room) n 1) 6 rounds left) (us ++ last :: x)
      (passage.values.foldl Passage.extend left) (last :: x)

namespace Opened

variable {run : List Char} {t last : Token} {us x : List Token}

/-- No values. -/
theorem none (ht : t.kind = .string (String.ofList run)) (hlast : last.kind = .sign .semicolon) :
    Opened run ⟨[], []⟩ t [] last x where
  string := by rw [ht, List.append_nil]
  semicolon := hlast
  length := Nat.le_refl _
  ends := by
    rw [List.nil_append, headKind, hlast]
    exact endsText_semicolon
  chain _ _ := .chainDone (by rw [List.nil_append, headKind, hlast]; rfl)

/-- A text more. -/
theorem text {cs : List Char} {passage : Passage} (h : Opened (run ++ cs) passage t us last x) :
    Opened run ⟨cs ++ passage.first, passage.values⟩ t us last x where
  string := by rw [h.string, List.append_assoc]
  semicolon := h.semicolon
  length := h.length
  ends := h.ends
  chain := h.chain

/-- A value more. -/
theorem value {inner : List Char} {e : Expr} (he : Expresses (String.ofList inner) e)
    {own : List Mark} (hown : Alone inner own) {escapes : Bool} {passage : Passage}
    {ts ts₁ ts₂ : List Token} {t' : Token} (ht : t.kind = .string (String.ofList run))
    (hts : ts.map Token.mark = own) (h₁ : kinds ts₁ = opening (valueKind escapes))
    (h₂ : kinds ts₂ = closing (valueKind escapes)) (h : Opened [] passage t' us last x) :
    Opened run ⟨[], ((escapes, e), passage.first) :: passage.values⟩ t
      (ts₁ ++ (ts ++ (ts₂ ++ t' :: us))) last x := by
  have hown' : Alone (String.ofList inner).toList own := by rwa [String.toList_ofList]
  obtain ⟨c, cs, rfl, hc⟩ : ∃ c cs, ts₁ = c :: cs ∧ c.kind = .sign .plus := by
    rw [opening_valueKind] at h₁
    obtain ⟨c, cs, rfl, hc, -⟩ := List.map_eq_cons_iff.mp h₁
    exact ⟨c, cs, rfl, hc⟩
  have hlength := h.length
  refine ⟨by rw [ht, List.append_nil], h.semicolon, ?_, ?_, fun {n room rounds left} hn hrounds => ?_⟩
  · simp only [List.length_append, List.length_cons]
    omega
  · rw [List.cons_append, List.cons_append, headKind, hc]
    exact endsText_plus
  · simp only [List.length_append, List.length_cons] at hn hrounds
    obtain ⟨rounds, rfl⟩ : ∃ r, rounds = r + 2 := ⟨rounds - 2, by omega⟩
    simp only [List.append_assoc, List.cons_append]
    exact gives_value he hown' hts h₁ h₂ h.string (by rw [List.length_cons]; omega) h.ends
      (h.chain (by omega) (by omega))

/-- **A passage is a statement.** -/
theorem givesAll {passage : Passage} (h : Opened [] passage t us last x) {p q : Token}
    (hp : p.kind = .name "__p") (hq : q.kind = .sign .plusAssign) {stmts : List Stmt}
    (hx : GivesAll x stmts) :
    GivesAll (p :: q :: t :: (us ++ last :: x)) (appending passage.tree :: stmts) := by
  obtain ⟨final, hfinal, hgives⟩ := hx
  refine ⟨final, hfinal, fun n rounds hn hrounds => ?_⟩
  simp only [List.length_append, List.length_cons] at hn hrounds
  obtain ⟨rounds, rfl⟩ : ∃ r, rounds = r + 1 := ⟨rounds - 1, by omega⟩
  have hlength := h.length
  exact .statementsCons (by rw [headKind, hp]; rfl)
    (gives_appending hp hq h.string h.semicolon maxNesting h.ends
      (fun r => h.chain (by omega) (by omega)) false)
    (hgives n rounds (by omega) (by omega))

end Opened

/-! ### Bodies -/

/-- The tokens from an open string on. -/
theorem gives_spliced {run : List Char} {parts : List Part} {ms : List Mark}
    (h : Spliced run parts ms) {contents : List Content} (his : List.Forall₂ Part.Is parts contents)
    {ts : List Token} {newline : Bool} (hts : ts.map Token.mark = ms ++ [(.stop, newline)]) :
    ∃ t us last x, ts = t :: (us ++ last :: x) ∧
      Opened run (passages contents).1 t us last x ∧
      GivesAll x (interleaved (passages contents).2) := by
  induction h generalizing contents ts with
  | last =>
      cases his
      obtain ⟨t, ts, rfl, ht, hts⟩ := List.map_eq_cons_iff.mp hts
      obtain ⟨last, ts, rfl, hlast, hts⟩ := List.map_eq_cons_iff.mp hts
      obtain ⟨stop, rfl, hstop⟩ := List.map_eq_singleton_iff.mp hts
      exact ⟨t, [], last, [stop], rfl, .none (congrArg Prod.fst ht) (congrArg Prod.fst hlast),
        .stop (congrArg Prod.fst hstop)⟩
  | text _ ih =>
      cases his with
      | cons hpart his =>
          cases hpart
          obtain ⟨t, us, last, x, rfl, hopened, hx⟩ := ih his hts
          exact ⟨t, us, last, x, rfl, hopened.text, hx⟩
  | directive before after hown hbefore hafter hline _ ih =>
      simp only [List.cons_append, List.append_assoc] at hts
      obtain ⟨t, ts, rfl, ht, hts⟩ := List.map_eq_cons_iff.mp hts
      obtain ⟨ts₁, ts, rfl, hts₁, hts⟩ := List.map_eq_append_iff.mp hts
      obtain ⟨ts₀, ts, rfl, hts₀, hts⟩ := List.map_eq_append_iff.mp hts
      obtain ⟨ts₂, ts, rfl, hts₂, hts⟩ := List.map_eq_append_iff.mp hts
      cases his with
      | cons hpart his =>
          obtain ⟨t', us, last, x, rfl, hopened, hx⟩ := ih his hts
          have hkinds₁ := (kinds_of_marks hts₁).trans hbefore
          have hkinds₂ := (kinds_of_marks hts₂).trans hafter
          cases hpart with
          | value he _ =>
              rw [entered_valueKind] at hts₀
              refine ⟨t, _, last, x, ?_,
                .value he hown (congrArg Prod.fst ht) hts₀ hkinds₁ hkinds₂ hopened, hx⟩
              simp only [List.append_assoc, List.cons_append]
          | statements hbody =>
              obtain ⟨semicolon, rfl, hsemicolon⟩ := List.map_eq_singleton_iff.mp hkinds₁
              obtain ⟨p, ts₂, rfl, hp, htail⟩ := List.map_eq_cons_iff.mp hkinds₂
              obtain ⟨q, rfl, hq⟩ := List.map_eq_singleton_iff.mp htail
              have hnew : p.newlineBefore = true := hline rfl p.mark (by rw [← hts₂]; rfl)
              refine ⟨t, [], semicolon, _, rfl, .none (congrArg Prod.fst ht) hsemicolon, ?_⟩
              have hall := (hopened.givesAll hp hq hx).afterStatements hbody hown hts₀ hp hnew hq
              simp only [interleaved, passages, List.flatMap_cons, List.append_assoc] at hall ⊢
              exact hall

/-- **Self-contained directives compose.**  Where the text of each directive that runs parses alone, and
that of each directive that writes holds just one expression, the body parses to the statements of the
directives as they are alone, with one statement for each passage between them, unless it nests too
deep. -/
theorem parseBody_ofPieces {parts : List Part} {contents : List Content}
    (h : List.Forall₂ Part.Is parts contents) :
    (∃ pos, parseBody (Body.ofPieces (parts.map Part.piece)) = .error ⟨.nestingTooDeep, pos⟩) ∨
      parseBody (Body.ofPieces (parts.map Part.piece)) = .ok (composed contents) := by
  obtain ⟨first, ms, hfirst, hms, hr⟩ := reads_ofPieces (closed_of_is h)
  obtain ⟨ts, htokens, hts⟩ := tokens_of_reads hr fun p => ⟨_, rfl⟩
  rw [List.append_assoc] at hts
  obtain ⟨us, ts, rfl, hus, htail⟩ := List.map_eq_append_iff.mp hts
  obtain ⟨p, us, rfl, hp, hkinds⟩ := List.map_eq_cons_iff.mp ((kinds_of_marks hus).trans hfirst)
  obtain ⟨q, rfl, hq⟩ := List.map_eq_singleton_iff.mp hkinds
  obtain ⟨t, us, last, x, rfl, hopened, hx⟩ := gives_spliced hms h htail
  obtain ⟨stop, hstop, hgives⟩ := hopened.givesAll hp hq hx
  exact (parseBody_of_gives htokens hstop (hgives _ _ (Nat.le_refl _) (Nat.le_refl _))).imp_left
    And.right

/-- Parts with a choice and an assignment as values, and with statements that end in a comment and
without a semicolon. -/
def selfContained : List Part :=
  [.text "it's ".toList, .directive .interpolate "b?c:d/*)*/".toList,
   .directive .evaluate "if(e)f=e//;".toList, .directive .escape "g=h".toList, .text "!".toList,
   .directive .evaluate "return".toList]

/-- The five statements that they are put together to. -/
def selfContainedOutlines : List String :=
  ["(expr (+= (id __p) (+ (+ (str \"it's \") (? (== (= (id __t) (? (id b) (id c) (id d))) null) " ++
     "(str \"\") (id __t))) (str \"\"))))",
   "(if (id e) (expr (= (id f) (id e))) -)",
   "(expr (+= (id __p) (+ (+ (str \"\") (? (== (= (id __t) (= (id g) (id h))) " ++
     "null) (str \"\") (call (member (id _) escape) (id __t)))) (str \"!\"))))",
   "(return -)", "(expr (+= (id __p) (str \"\")))"]

theorem parseBody_ofPieces_selfContained : ∃ contents,
    List.Forall₂ Part.Is selfContained contents ∧
      parseBody (Body.ofPieces (selfContained.map Part.piece)) = .ok (composed contents) ∧
      bodyOutlines (composed contents) = selfContainedOutlines := by
  have settled {α : Type} {m : Except ParseError α} (h : m.toOption.isSome = true) :
      ∃ a, m = .ok a := by
    cases m with
    | ok a => exact ⟨a, rfl⟩
    | error e => cases h
  obtain ⟨branch, hbranch⟩ := @settled _ (parseBody (String.ofList "if(e)f=e//;".toList))
    (by decide +kernel)
  obtain ⟨leave, hleave⟩ := @settled _ (parseBody (String.ofList "return".toList)) (by decide +kernel)
  obtain ⟨choice, hchoice⟩ := @settled _ (Parser.runOn (Parser.wholeExpr 4)
    (String.ofList "b?c:d/*)*/".toList)) (by decide +kernel)
  obtain ⟨assign, hassign⟩ := @settled _ (Parser.runOn (Parser.wholeExpr 4)
    (String.ofList "g=h".toList)) (by decide +kernel)
  have his : List.Forall₂ Part.Is selfContained _ :=
    .cons .text <|
    .cons (@Part.Is.value false _ _ ⟨4, hchoice⟩ (CommentsEnd.not_open (by decide +kernel))) <|
    .cons (.statements hbranch) <|
    .cons (@Part.Is.value true _ _ ⟨4, hassign⟩ (CommentsEnd.not_open (by decide +kernel))) <|
    .cons .text <| .cons (.statements hleave) .nil
  have hrun : (parseBody (Body.ofPieces (selfContained.map Part.piece))).toOption.map bodyOutlines =
    some selfContainedOutlines := by
    rw [parseBody_eq_readBody, toList_bodyOfPieces]
    decide +kernel
  rcases parseBody_ofPieces his with ⟨pos, h⟩ | h
  · rw [h] at hrun
    cases hrun
  · rw [h] at hrun
    exact ⟨_, his, h, Option.some.inj hrun⟩

end Template
end Stencil
