import Stencil.Proofs.Grammar.Productions

/-!
# Grammar — how parsers fail, and where they stop

A parser that fails says so at one of its tokens, and what it says is about that token
(`Cause.Concerns`).  And a parser that succeeds on a list which goes on with a closing brace, without
taking the brace, succeeds where the list ends in its place: a brace ends whatever the end ends.

`C.Local slack S p` says both of a parser whose first token is in `S`.  An object is the one thing
that a brace ends and the end does not; the parser of its fields has a slack of one, and is local with
the brace after it (`Local.closed`).

The rules come first, one for each way of looking at a token, then one statement for each production.
`levels_local`: all productions are local.
-/

namespace Stencil.Script

/-- Whether a cause is one about a token of the given kind.  An operator with a target that is none is
reported at the operator if it stands after the target, and otherwise after the target. -/
def ParseError.Cause.Concerns : ParseError.Cause → TokenKind → Prop
  | .unexpected actual, kind => kind = actual
  | .nestingTooDeep, _ => True
  | .illegalBreak, kind => kind = .keyword .break
  | .illegalContinue, kind => kind = .keyword .continue
  | .functionNameMissing, kind => ∀ word, kind ≠ .name word
  | .initializerMissing, kind => kind ≠ .sign .assign
  | .invalidAssignment, kind => (Parser.assignOp kind).isSome = true
  | .invalidPrefixOperation, _ => True
  | .invalidPostfixOperation, kind => kind = .sign .increment ∨ kind = .sign .decrement
  | _, _ => False

/-- The name that a token is. -/
def TokenKind.name? : TokenKind → Option String
  | .name word => some word
  | _ => none

namespace Parser

theorem primary_eq (level : Level) (bound : Nat) :
    primary level bound = (do
      let kind ← peekKind
      match kind with
      | .number value => do
        let _ ← advance
        pure (.number value)
      | .string value => do
        let _ ← advance
        pure (.string value)
      | .name word => do
        let _ ← advance
        pure (.name word)
      | .keyword .true => do
        let _ ← advance
        pure (.bool true)
      | .keyword .false => do
        let _ ← advance
        pure (.bool false)
      | .keyword .null => do
        let _ ← advance
        pure .null
      | .keyword .function => do
        let _ ← advance
        let name ← acceptName
        let definition ← definitionRest level bound name
        pure (.function definition)
      | .sign .openParen => do
        let _ ← advance
        let inner ← level.assignment
        expectSign .closeParen
        pure inner
      | .sign .openBracket => do
        let _ ← advance
        let all ← itemsClosed level bound .closeBracket
        pure (.array all)
      | .sign .openBrace => do
        let _ ← advance
        let all ← fields level bound
        expectSign .closeBrace
        pure (.object all)
      | _ => unexpected) := by
  funext ts
  cases ts with
  | nil => rfl
  | cons t ts =>
      obtain ⟨kind, pos, nl⟩ := t
      cases kind with
      | keyword word => cases word <;> rfl
      | sign s => cases s <;> rfl
      | _ => rfl

theorem suffix_of_loopBinding {ts rest : List Token} {found : Option (LoopBinding × LoopWord)}
    (e : loopBinding.run ts = .ok (found, rest)) : rest <:+ ts := by
  cases ts with
  | nil => cases e; exact List.suffix_refl _
  | cons t ts =>
      rw [Ending.run_loopBinding] at e
      cases h : Ending.loopName? (if (declKind t.kind).isSome then ts else t :: ts) with
      | none =>
          rw [h] at e
          cases e
          exact List.suffix_refl _
      | some found =>
          obtain ⟨word, loop, last⟩ := found
          rw [h] at e
          cases e
          obtain ⟨t', u, hts, -, -⟩ := Ending.of_loopName? h
          have hlast : rest <:+ if (declKind t.kind).isSome then ts else t :: ts :=
            ⟨[t', u], hts.symm⟩
          refine hlast.trans ?_
          cases (declKind t.kind).isSome with
          | true => exact List.suffix_cons t ts
          | false => exact List.suffix_refl _

namespace Ending

/-- **Parsers that fail at their tokens, and that stop at a brace as at the end.** -/
structure Local (C : Ending) {α : Type} (slack : Nat) (S : TokenKind → Prop) (p : Parser α) :
    Prop where
  takes : ∀ ts a rest, Ended ts → p.run ts = .ok (a, rest) → Ended rest ∧ rest <:+ ts
  points : ∀ ts e, Ended ts → S (headKind ts) → p.run ts = .error e →
    ∃ t ∈ ts, e.position = t.position ∧ e.cause.Concerns t.kind
  shrinks : ∀ us a rest, p.run us = .ok (a, rest) → rest.length ≤ us.length
  returns : C.head.kind = .sign .closeBrace → ∀ ts us a rest', C.Beside ts us → p.run us = .ok (a, rest') →
    C.tail.length + slack < rest'.length → ∃ rest, p.run ts = .ok (a, rest) ∧ C.Beside rest rest'

namespace Local

variable {C : Ending} {α β : Type} {slack : Nat} {S T : TokenKind → Prop}

/-! ### Composition -/

theorem weaken {p : Parser α} (h : C.Local slack S p) (hS : ∀ kind, T kind → S kind) :
    C.Local slack T p where
  takes := h.takes
  points ts e he hs := h.points ts e he (hS _ hs)
  shrinks := h.shrinks
  returns := h.returns

theorem anyway {p : Parser α} (h : C.Local slack Any p) : C.Local slack S p :=
  h.weaken fun _ _ => trivial

theorem loosen {p : Parser α} (h : C.Local 0 S p) : C.Local slack S p where
  takes := h.takes
  points := h.points
  shrinks := h.shrinks
  returns hC ts us a rest' hb e hl := h.returns hC ts us a rest' hb e (by omega)

theorem pure (a : α) : C.Local slack S (Pure.pure a : Parser α) where
  takes ts b rest he e := by
    cases e
    exact ⟨he, List.suffix_refl _⟩
  points ts e _ _ h := by cases h
  shrinks us b rest e := by
    cases e
    exact Nat.le_refl _
  returns hC ts us b rest' hb e _ := by
    cases e
    exact ⟨ts, rfl, hb⟩

/-- A fault that is about the next token. -/
theorem failHere {cause : ParseError.Cause} (h : ∀ kind, S kind → cause.Concerns kind) :
    C.Local slack S (Parser.failHere cause : Parser α) where
  takes ts a rest he e := by cases he <;> cases e
  points ts e he hs h' := by
    cases he with
    | @stop t ht =>
        cases h'
        exact ⟨t, List.mem_singleton_self t, rfl, h _ hs⟩
    | @cons t ts hstop hsound he =>
        cases h'
        exact ⟨t, List.mem_cons_self, rfl, h _ hs⟩
  shrinks us a rest e := by cases us <;> cases e
  returns hC ts us a rest' _ e _ := by cases us <;> cases e

theorem unexpected : C.Local slack S (Parser.unexpected : Parser α) where
  takes ts a rest he e := by cases he <;> cases e
  points ts e he _ h' := by
    cases he with
    | @stop t ht =>
        cases h'
        exact ⟨t, List.mem_singleton_self t, rfl, rfl⟩
    | @cons t ts hstop hsound he =>
        cases h'
        exact ⟨t, List.mem_cons_self, rfl, rfl⟩
  shrinks us a rest e := by cases us <;> cases e
  returns hC ts us a rest' _ e _ := by cases us <;> cases e

/-- Parsers in sequence, of which the second makes up for the slack of the first. -/
theorem bindTaking {p : Parser α} {f : α → Parser β} {k : Nat} (hp : C.Local k S p)
    (hf : ∀ a, C.Local slack Any (f a)) (hk : ∀ a us b rest, (f a).run us = .ok (b, rest) →
      rest.length + k ≤ us.length + slack) : C.Local slack S (p >>= f) where
  takes ts b rest he e := by
    obtain ⟨a, mid, e₁, e₂⟩ := run_bind_ok e
    obtain ⟨hmid, hs₁⟩ := hp.takes ts a mid he e₁
    obtain ⟨hrest, hs₂⟩ := (hf a).takes mid b rest hmid e₂
    exact ⟨hrest, hs₂.trans hs₁⟩
  points ts e he hs h := by
    rw [run_bind] at h
    cases hr : p.run ts with
    | error e' =>
        rw [hr] at h
        cases h
        exact hp.points ts e he hs hr
    | ok r =>
        obtain ⟨a, mid⟩ := r
        rw [hr] at h
        obtain ⟨hmid, hsuffix⟩ := hp.takes ts a mid he hr
        obtain ⟨t, ht, hpos, hcause⟩ := (hf a).points mid e hmid trivial h
        exact ⟨t, hsuffix.mem ht, hpos, hcause⟩
  shrinks us b rest e := by
    obtain ⟨a, mid, e₁, e₂⟩ := run_bind_ok e
    exact Nat.le_trans ((hf a).shrinks mid b rest e₂) (hp.shrinks us a mid e₁)
  returns hC ts us b rest' hb e hl := by
    obtain ⟨a, mid', e₁, e₂⟩ := run_bind_ok e
    have hmid := hk a mid' b rest' e₂
    obtain ⟨mid, e₁', hb'⟩ := hp.returns hC ts us a mid' hb e₁ (by omega)
    obtain ⟨rest, e₂', hb''⟩ := (hf a).returns hC mid mid' b rest' hb' e₂ hl
    exact ⟨rest, by rw [run_bind_of_ok f e₁', e₂'], hb''⟩

/-- **Parsers in sequence.** -/
theorem bind {p : Parser α} {f : α → Parser β} (hp : C.Local 0 S p)
    (hf : ∀ a, C.Local slack Any (f a)) : C.Local slack S (p >>= f) :=
  hp.bindTaking hf fun a us b rest e => Nat.le_add_right_of_le ((hf a).shrinks us b rest e)

theorem map {p : Parser α} (g : α → β) (hp : C.Local slack S p) :
    C.Local slack S (p >>= fun a => Pure.pure (g a)) :=
  hp.bindTaking (fun a => .pure (g a)) fun a us b rest e => by
    cases e
    exact Nat.le_refl _

/-! ### Looking at a token -/

theorem length_of_advance {us rest : List Token} {t : Token}
    (e : advance.run us = .ok (t, rest)) : rest.length ≤ us.length := by
  cases us with
  | nil => cases e; exact Nat.le_refl _
  | cons u us =>
      by_cases h : u.kind = .stop
      · rw [run_advance_stop h] at e
        cases e
        exact Nat.le_refl _
      · rw [run_advance (TokenKind.isStop_eq_false h)] at e
        cases e
        exact Nat.le_succ _

theorem length_of_expectSign {us rest : List Token} {sign : Punctuator} {u : Unit}
    (e : (Parser.expectSign sign).run us = .ok (u, rest)) : rest.length < us.length := by
  cases us with
  | nil => cases e
  | cons t us =>
      cases h : t.kind.isSign sign with
      | true =>
          rw [run_expectSign_true h] at e
          cases e
          exact Nat.lt_succ_self _
      | false =>
          rw [run_expectSign_false h] at e
          cases e

/-- A look at the next kind. -/
theorem peekKind {f : TokenKind → Parser β}
    (hmore : ∀ kind, C.Local slack (fun k => k = kind ∧ S k) (f kind))
    (hend : f (.sign .closeBrace) = f .stop) : C.Local slack S (Parser.peekKind >>= f) where
  takes ts b rest he e := by
    cases he with
    | @stop t ht =>
        rw [run_bind_of_ok f (run_peekKind t [])] at e
        exact (hmore _).takes [t] b rest (.stop ht) e
    | @cons t ts h hsound he =>
        rw [run_bind_of_ok f (run_peekKind t ts)] at e
        exact (hmore _).takes _ b rest (.cons h hsound he) e
  points ts e he hs h' := by
    cases he with
    | @stop t ht =>
        rw [run_bind_of_ok f (run_peekKind t [])] at h'
        exact (hmore t.kind).points [t] e (.stop ht) ⟨rfl, hs⟩ h'
    | @cons t ts h hsound he =>
        rw [run_bind_of_ok f (run_peekKind t ts)] at h'
        exact (hmore t.kind).points _ e (.cons h hsound he) ⟨rfl, hs⟩ h'
  shrinks us b rest e := by
    cases us with
    | nil => exact (hmore .stop).shrinks [] b rest e
    | cons u us =>
        rw [run_bind_of_ok f (run_peekKind u us)] at e
        exact (hmore _).shrinks _ b rest e
  returns hC ts us b rest' hb e hl := by
    cases hb with
    | @stop t ht =>
        rw [run_bind_of_ok f (run_peekKind _ _), hC, hend] at e
        obtain ⟨rest, e', hb'⟩ := (hmore .stop).returns hC [t] _ b rest' (.stop ht) e hl
        exact ⟨rest, by rw [run_bind_of_ok f (run_peekKind t []), ht, e'], hb'⟩
    | @cons t u ts us hk hnl h hsound hb =>
        rw [run_bind_of_ok f (run_peekKind u us), ← hk] at e
        obtain ⟨rest, e', hb'⟩ :=
          (hmore t.kind).returns hC _ _ b rest' (.cons hk hnl h hsound hb) e hl
        exact ⟨rest, by rw [run_bind_of_ok f (run_peekKind t ts), e'], hb'⟩

/-- A look at the next token, of which the kind and the line before it matter. -/
theorem peek {f : Token → Parser β} (hmore : ∀ t, C.Local slack (· = t.kind) (f t))
    (hsame : ∀ t u : Token, t.kind = u.kind → t.newlineBefore = u.newlineBefore → f u = f t)
    (hend : ∀ t u : Token, t.kind = .stop → u.kind = .sign .closeBrace → f u = f t) :
    C.Local slack S (Parser.peek >>= f) where
  takes ts b rest he e := by
    cases he with
    | @stop t ht => exact (hmore t).takes [t] b rest (.stop ht) e
    | @cons t ts h hsound he => exact (hmore t).takes _ b rest (.cons h hsound he) e
  points ts e he _ h' := by
    cases he with
    | @stop t ht => exact (hmore t).points [t] e (.stop ht) rfl h'
    | @cons t ts h hsound he => exact (hmore t).points _ e (.cons h hsound he) rfl h'
  shrinks us b rest e := by
    cases us with
    | nil => exact (hmore ⟨.stop, .start, false⟩).shrinks [] b rest e
    | cons u us => exact (hmore u).shrinks _ b rest e
  returns hC ts us b rest' hb e hl := by
    cases hb with
    | @stop t ht =>
        rw [run_bind_of_ok f (run_peek _ _), hend t _ ht hC] at e
        exact (hmore t).returns hC [t] _ b rest' (.stop ht) e hl
    | @cons t u ts us hk hnl h hsound hb =>
        rw [run_bind_of_ok f (run_peek u us), hsame t u hk hnl] at e
        exact (hmore t).returns hC _ _ b rest' (.cons hk hnl h hsound hb) e hl

/-- Taking the next token. -/
theorem skip {f : Parser β} (hf : C.Local slack Any f) :
    C.Local slack S (Parser.advance >>= fun _ => f) where
  takes ts b rest he e := by
    cases he with
    | @stop t ht =>
        rw [run_bind_of_ok _ (run_advance_stop ht [])] at e
        exact hf.takes [t] b rest (.stop ht) e
    | @cons t ts h hsound he =>
        rw [run_bind_of_ok _ (run_advance h ts)] at e
        obtain ⟨hrest, hs⟩ := hf.takes ts b rest he e
        exact ⟨hrest, hs.trans (List.suffix_cons t ts)⟩
  points ts e he _ h' := by
    cases he with
    | @stop t ht =>
        rw [run_bind_of_ok _ (run_advance_stop ht [])] at h'
        exact hf.points [t] e (.stop ht) trivial h'
    | @cons t ts h hsound he =>
        rw [run_bind_of_ok _ (run_advance h ts)] at h'
        obtain ⟨t', ht', hpoints⟩ := hf.points ts e he trivial h'
        exact ⟨t', List.mem_cons_of_mem _ ht', hpoints⟩
  shrinks us b rest e := by
    obtain ⟨t, mid, e₁, e₂⟩ := run_bind_ok e
    exact Nat.le_trans (hf.shrinks mid b rest e₂) (length_of_advance e₁)
  returns hC ts us b rest' hb e hl := by
    obtain ⟨u, mid', e₁, e₂⟩ := run_bind_ok e
    have hmid := hf.shrinks mid' b rest' e₂
    cases hb with
    | @stop t ht =>
        rw [run_advance (by rw [hC]; rfl)] at e₁
        cases e₁
        omega
    | @cons t v ts vs hk hnl h hsound hb =>
        rw [run_advance (hk ▸ h) vs] at e₁
        cases e₁
        obtain ⟨rest, e', hb'⟩ := hf.returns hC ts mid' b rest' hb e₂ hl
        exact ⟨rest, by rw [run_bind_of_ok _ (run_advance h ts), e'], hb'⟩

/-- Taking a token that passes a test, which no token does where a list ends. -/
theorem accept {f : Bool → Parser β} {test : TokenKind → Bool} (hstop : test .stop = false)
    (hclose : test (.sign .closeBrace) = false) (htrue : C.Local slack Any (f true))
    (hfalse : C.Local slack (fun kind => test kind = false ∧ S kind) (f false)) :
    C.Local slack S (Parser.accept test >>= f) := by
  have look : Parser.accept test >>= f = Parser.peekKind >>= fun kind =>
      if test kind then Parser.advance >>= fun _ => f true else f false := by
    rw [Parser.accept, bind_assoc]
    refine congrArg (Parser.peekKind >>= ·) (funext fun kind => ?_)
    cases test kind <;> simp
  rw [look]
  refine .peekKind (fun kind => ?_) (by simp only [hstop, hclose])
  cases h : test kind with
  | true => exact .skip htrue
  | false => exact hfalse.weaken fun k hk => ⟨hk.1 ▸ h, hk.2⟩

theorem acceptSign {f : Bool → Parser β} {sign : Punctuator} (hsign : sign ≠ .closeBrace)
    (htrue : C.Local slack Any (f true))
    (hfalse : C.Local slack (fun kind => kind ≠ .sign sign ∧ S kind) (f false)) :
    C.Local slack S (Parser.acceptSign sign >>= f) := by
  rw [acceptSign_eq]
  refine .accept rfl ?_ htrue (hfalse.weaken fun kind hk => ⟨?_, hk.2⟩)
  · cases h : TokenKind.isSign (.sign .closeBrace) sign with
    | false => rfl
    | true => exact absurd (TokenKind.sign.inj (eq_sign_of_isSign h)).symm hsign
  · rintro rfl
    have h := hk.1
    simp [TokenKind.isSign] at h

theorem acceptKeyword {f : Bool → Parser β} {word : Keyword} (htrue : C.Local slack Any (f true))
    (hfalse : C.Local slack S (f false)) : C.Local slack S (Parser.acceptKeyword word >>= f) := by
  rw [acceptKeyword_eq]
  exact .accept rfl rfl htrue (hfalse.weaken fun _ hk => hk.2)

/-- A look at a sign other than a closing brace. -/
theorem atSign {f : Bool → Parser β} {sign : Punctuator} (hsign : sign ≠ .closeBrace)
    (hf : ∀ here, C.Local slack S (f here)) : C.Local slack S (Parser.atSign sign >>= f) := by
  have look : Parser.atSign sign >>= f = Parser.peekKind >>= fun kind => f (kind.isSign sign) := by
    rw [Parser.atSign, bind_assoc]
    rfl
  rw [look]
  refine .peekKind (fun kind => (hf _).weaken fun k hk => hk.2) (congrArg f ?_)
  cases h : TokenKind.isSign (.sign .closeBrace) sign with
  | false => rfl
  | true => exact absurd (TokenKind.sign.inj (eq_sign_of_isSign h)).symm hsign

/-- Taking a name if one is next. -/
theorem acceptName {f : Option String → Parser β} (hsome : ∀ word, C.Local slack Any (f (some word)))
    (hnone : C.Local slack (fun kind => (∀ word, kind ≠ .name word) ∧ S kind) (f none)) :
    C.Local slack S (Parser.acceptName >>= f) := by
  have look : Parser.acceptName >>= f = Parser.peekKind >>= fun kind =>
      kind.name?.elim (f none) fun word => Parser.advance >>= fun _ => f (some word) := by
    rw [Parser.acceptName, bind_assoc]
    refine congrArg (Parser.peekKind >>= ·) (funext fun kind => ?_)
    cases kind <;> simp [TokenKind.name?]
  rw [look]
  refine .peekKind (fun kind => ?_) rfl
  cases hk : kind.name? with
  | some word =>
      refine .skip (hsome word)
  | none =>
      refine hnone.weaken fun k hk' => ⟨fun word hword => ?_, hk'.2⟩
      rw [← hk'.1, hword] at hk
      cases hk

theorem expectName : C.Local slack S Parser.expectName :=
  .acceptName (fun word => .pure word) .unexpected

/-- Taking a sign that must be next. -/
theorem expectSign (sign : Punctuator) : C.Local slack S (Parser.expectSign sign) where
  takes ts b rest he e := by
    cases he with
    | @stop t ht =>
        rw [run_expectSign_false (by rw [ht]; rfl)] at e
        cases e
    | @cons t ts h hsound he =>
        cases hs : t.kind.isSign sign with
        | true =>
            rw [run_expectSign_true hs] at e
            cases e
            exact ⟨he, List.suffix_cons t _⟩
        | false => rw [run_expectSign_false hs] at e; cases e
  points ts e he _ h' := by
    obtain ⟨t, ts, rfl⟩ : ∃ t rest, ts = t :: rest := by cases he <;> exact ⟨_, _, rfl⟩
    cases hs : t.kind.isSign sign with
    | true => rw [run_expectSign_true hs] at h'; cases h'
    | false =>
        rw [run_expectSign_false hs] at h'
        cases h'
        exact ⟨t, List.mem_cons_self, rfl, rfl⟩
  shrinks us b rest e := Nat.le_of_lt (length_of_expectSign e)
  returns hC ts us b rest' hb e hl := by
    cases hb with
    | @stop t ht =>
        have := length_of_expectSign e
        rw [List.length_cons] at this
        omega
    | @cons t u ts us hk hnl h hsound hb =>
        cases hs : u.kind.isSign sign with
        | true =>
            rw [run_expectSign_true hs] at e
            cases e
            exact ⟨ts, run_expectSign_true (hk ▸ hs) ts, hb⟩
        | false => rw [run_expectSign_false hs] at e; cases e

/-! ### Braces -/

section
variable {a : α} {p : Parser α} {t : Token}

theorem run_unlessClosed_true (h : t.kind.isSign .closeBrace = true) (ts : List Token) :
    (Parser.atSign .closeBrace >>= fun closed => if closed then Pure.pure a else p).run (t :: ts) =
      .ok (a, t :: ts) := by
  rw [run_bind_of_ok _ (run_atSign _ t ts), h]
  rfl

theorem run_unlessClosed_false (h : t.kind.isSign .closeBrace = false) (ts : List Token) :
    (Parser.atSign .closeBrace >>= fun closed => if closed then Pure.pure a else p).run (t :: ts) =
      p.run (t :: ts) := by
  rw [run_bind_of_ok _ (run_atSign _ t ts), h]
  rfl

end

/-- A parser, unless a closing brace stands in its place.  It may take nothing where a list goes on
with a brace, and fail where it ends. -/
theorem unlessClosed {a : α} {p : Parser α} (hp : C.Local 1 S p) :
    C.Local 1 S (Parser.atSign .closeBrace >>= fun closed =>
      if closed then Pure.pure a else p) where
  takes ts b rest he e := by
    obtain ⟨t, us, rfl⟩ : ∃ t rest, ts = t :: rest := by cases he <;> exact ⟨_, _, rfl⟩
    cases h : t.kind.isSign .closeBrace with
    | true =>
        rw [run_unlessClosed_true h] at e
        cases e
        exact ⟨he, List.suffix_refl _⟩
    | false =>
        rw [run_unlessClosed_false h] at e
        exact hp.takes _ b rest he e
  points ts e he hs h' := by
    obtain ⟨t, us, rfl⟩ : ∃ t rest, ts = t :: rest := by cases he <;> exact ⟨_, _, rfl⟩
    cases h : t.kind.isSign .closeBrace with
    | true => rw [run_unlessClosed_true h] at h'; cases h'
    | false =>
        rw [run_unlessClosed_false h] at h'
        exact hp.points _ e he hs h'
  shrinks us b rest e := by
    cases us with
    | nil => exact hp.shrinks [] b rest e
    | cons u us =>
        cases h : u.kind.isSign .closeBrace with
        | true => rw [run_unlessClosed_true h] at e; cases e; exact Nat.le_refl _
        | false =>
            rw [run_unlessClosed_false h] at e
            exact hp.shrinks _ b rest e
  returns hC ts us b rest' hb e hl := by
    cases hb with
    | @stop t ht =>
        -- the other list stands at its brace, which is more than it may leave
        rw [run_unlessClosed_true (by rw [hC]; rfl)] at e
        cases e
        rw [List.length_cons] at hl
        omega
    | @cons t u ts us hk hnl h hsound hb =>
        have hb' := Beside.cons hk hnl h hsound hb
        cases hs : t.kind.isSign .closeBrace with
        | true =>
            rw [run_unlessClosed_true (hk ▸ hs)] at e
            cases e
            exact ⟨_, run_unlessClosed_true hs ts, hb'⟩
        | false =>
            rw [run_unlessClosed_false (hk ▸ hs)] at e
            obtain ⟨rest, e', hb''⟩ := hp.returns hC _ _ b rest' hb' e hl
            exact ⟨rest, (run_unlessClosed_false hs ts).trans e', hb''⟩

/-- The brace after a parser makes up for its slack. -/
theorem closed {p : Parser α} (g : α → β) (hp : C.Local 1 S p) :
    C.Local 0 S (p >>= fun a => Parser.expectSign .closeBrace >>= fun _ => Pure.pure (g a)) :=
  hp.bindTaking (fun a => (expectSign .closeBrace).bind fun _ => .pure (g a)) fun a us b rest e => by
    obtain ⟨_, last, e₁, e₂⟩ := run_bind_ok e
    cases e₂
    exact length_of_expectSign e₁

end Local

/-! ### Productions -/

/-- **Levels whose productions are local.** -/
structure LevelLocal (C : Ending) (level : Level) : Prop where
  statement : ∀ inLoop, C.Local 0 Any (level.statement inLoop)
  assignment : C.Local 0 Any level.assignment
  unary : C.Local 0 Any level.unary

/-- A loop variable and the word after it are taken where they are, and no parser fails for want
of them. -/
theorem Local.loopBinding {C : Ending} {S : TokenKind → Prop} : C.Local 0 S Parser.loopBinding where
  takes ts found rest he e := by
    obtain ⟨C', hb⟩ := exists_beside he
    obtain ⟨found', rest₁, rest₂, e', -, hr, -, -⟩ := hb.loopBinding
    rw [e'] at e
    cases e
    exact ⟨hr.ended, suffix_of_loopBinding e'⟩
  points ts e he _ h := by
    obtain ⟨C', hb⟩ := exists_beside he
    obtain ⟨found', rest₁, rest₂, e', -⟩ := hb.loopBinding
    rw [e'] at h
    cases h
  shrinks us found rest e := (suffix_of_loopBinding e).length_le
  returns _ ts us found rest' hb e _ := by
    obtain ⟨found', rest₁, rest₂, e', e'', hr, -, -⟩ := hb.loopBinding
    rw [e''] at e
    cases e
    exact ⟨rest₁, e', hr⟩

namespace LevelLocal

variable {C : Ending} {level : Level} {S : TokenKind → Prop} {slack : Nat}

theorem expression (h : C.LevelLocal level) : C.Local slack S level.assignment :=
  h.assignment.anyway.loosen

theorem unaryOperand (h : C.LevelLocal level) : C.Local slack S level.unary :=
  h.unary.anyway.loosen

theorem body (h : C.LevelLocal level) (inLoop : Bool) : C.Local slack S (level.statement inLoop) :=
  (h.statement inLoop).anyway.loosen

theorem statements (h : C.LevelLocal level) (inLoop : Bool) (bound : Nat) :
    C.Local 0 S (Parser.statements level inLoop bound) := by
  induction bound generalizing S with
  | zero => exact .pure []
  | succ bound ih =>
      rw [statements_succ]
      refine .peekKind (fun kind => ?_) rfl
      cases kind.isSign .closeBrace || kind.isStop with
      | true => exact .pure []
      | false => exact (h.body inLoop).bind fun _ => ih.bind fun _ => .pure _

theorem braced (h : C.LevelLocal level) (inLoop : Bool) (bound : Nat) :
    C.Local 0 S (Parser.braced level inLoop bound) :=
  (Local.expectSign .openBrace).bind fun _ => (h.statements inLoop bound).bind fun _ =>
    (Local.expectSign .closeBrace).bind fun _ => .pure _

theorem parameters (bound : Nat) : C.Local 0 S (Parser.parameters bound) := by
  induction bound generalizing S with
  | zero => exact .pure _
  | succ bound ih =>
      refine .atSign (by decide) fun closed => ?_
      cases closed with
      | true => exact .pure _
      | false =>
          refine .acceptSign (by decide) (Local.expectName.bind fun _ => .pure _) ?_
          refine Local.expectName.bind fun _ => .acceptSign (by decide) ?_ (.pure _)
          exact ih.bind fun _ => .pure _

theorem definitionRest (h : C.LevelLocal level) (bound : Nat) (name : Option String) :
    C.Local 0 S (Parser.definitionRest level bound name) :=
  (Local.expectSign .openParen).bind fun _ => (parameters bound).bind fun _ =>
    (Local.expectSign .closeParen).bind fun _ => (h.braced false bound).bind fun _ => .pure _

theorem items (h : C.LevelLocal level) {close : Punctuator} (hclose : close ≠ .closeBrace)
    (bound : Nat) : C.Local 0 S (Parser.items level close bound) := by
  induction bound generalizing S with
  | zero => exact .pure _
  | succ bound ih =>
      refine .atSign hclose fun closed => ?_
      cases closed with
      | true => exact .pure _
      | false =>
          refine h.expression.bind fun _ => .acceptSign (by decide) ?_ (.pure _)
          exact ih.bind fun _ => .pure _

theorem itemsClosed (h : C.LevelLocal level) {close : Punctuator} (hclose : close ≠ .closeBrace)
    (bound : Nat) : C.Local 0 S (Parser.itemsClosed level bound close) :=
  (h.items hclose bound).bind fun _ => (Local.expectSign close).bind fun _ => .pure _

theorem field (h : C.LevelLocal level) : C.Local slack S (Parser.field level) := by
  refine .peekKind (fun kind => ?_) rfl
  cases fieldKey kind with
  | none => exact .unexpected
  | some found =>
      obtain ⟨key, shorthand⟩ := found
      refine .skip (.acceptSign (by decide) (h.expression.bind fun _ => .pure _) ?_)
      cases shorthand with
      | true => exact .pure _
      | false => exact .unexpected

theorem fields (h : C.LevelLocal level) (bound : Nat) :
    C.Local 1 S (Parser.fields level bound) := by
  induction bound generalizing S with
  | zero => exact .pure _
  | succ bound ih =>
      refine .unlessClosed (h.field.bind fun _ => .acceptSign (by decide) ?_ (.pure _))
      exact ih.map _

/-! ### Expressions -/

theorem primary (h : C.LevelLocal level) (bound : Nat) : C.Local 0 S (Parser.primary level bound) := by
  rw [primary_eq]
  refine .peekKind (fun kind => ?_) rfl
  cases kind with
  | number value => exact .skip (.pure _)
  | string value => exact .skip (.pure _)
  | name word => exact .skip (.pure _)
  | stop => exact .unexpected
  | keyword word =>
      cases word with
      | «true» => exact .skip (.pure _)
      | «false» => exact .skip (.pure _)
      | null => exact .skip (.pure _)
      | function =>
          have function : ∀ {T : TokenKind → Prop} (name : Option String), C.Local 0 T
              (Parser.definitionRest level bound name >>= fun d => Pure.pure (Expr.function d)) :=
            fun name => (h.definitionRest bound name).bind fun _ => .pure _
          exact .skip (.acceptName (fun word => function _) (function none))
      | _ => exact .unexpected
  | sign s =>
      cases s with
      | openParen =>
          exact .skip (h.expression.bind fun _ => (Local.expectSign .closeParen).bind fun _ => .pure _)
      | openBracket => exact .skip ((h.itemsClosed (by decide) bound).bind fun _ => .pure _)
      | openBrace => exact .skip ((h.fields bound).closed Expr.object)
      | _ => exact .unexpected

theorem suffixes (h : C.LevelLocal level) (bound rounds : Nat) (e : Expr) :
    C.Local 0 S (Parser.suffixes level bound rounds e) := by
  induction rounds generalizing S e with
  | zero => exact .pure e
  | succ rounds ih =>
      refine .acceptSign (by decide) (.peekKind (fun kind => ?_) rfl) ?_
      · cases memberName kind with
        | none => exact .unexpected
        | some key => exact .skip (ih _)
      refine .acceptSign (by decide) ?_ (.acceptSign (by decide) ?_ (.pure e))
      · exact h.expression.bind fun _ => (Local.expectSign .closeBracket).bind fun _ => ih _
      · exact (h.itemsClosed (by decide) bound).bind fun _ => ih _

theorem postfixed (h : C.LevelLocal level) (bound : Nat) :
    C.Local 0 S (Parser.postfixed level bound) := by
  refine (h.primary bound).bind fun _ => (h.suffixes bound bound _).bind fun e => ?_
  refine .peek (fun t => ?_) (fun t u hk hnl => by rw [hk, hnl]) fun t u ht hu => by rw [ht, hu]; rfl
  dsimp only
  cases hsign : t.kind.isSign .increment || t.kind.isSign .decrement with
  | false => exact .pure e
  | true =>
      cases t.newlineBefore with
      | true => exact .pure e
      | false =>
          cases e.isAssignable with
          | true => exact .skip (.pure _)
          | false =>
              refine .failHere fun kind hkind => ?_
              rw [hkind]
              exact (Bool.or_eq_true_iff.mp hsign).imp eq_sign_of_isSign eq_sign_of_isSign

theorem unaryBody (h : C.LevelLocal level) (bound : Nat) :
    C.Local 0 S (Parser.unaryBody level bound) := by
  refine .peekKind (fun kind => ?_) rfl
  cases unaryOp kind with
  | some op => exact .skip (h.unaryOperand.bind fun _ => .pure _)
  | none =>
      cases hi : kind.isSign .increment || kind.isSign .decrement with
      | false =>
          simp only [hi]
          exact h.postfixed bound
      | true =>
          simp only [hi]
          refine .skip (h.unaryOperand.bind fun e => ?_)
          cases e.isAssignable with
          | true => exact .pure _
          | false => exact .failHere fun _ _ => trivial

theorem chain {p : Parser Expr} (hp : C.Local 0 Any p) (strength rounds : Nat) (e : Expr) :
    C.Local 0 S (Parser.chain p strength rounds e) := by
  induction rounds generalizing S e with
  | zero => exact .pure e
  | succ rounds ih =>
      refine .peekKind (fun kind => ?_) rfl
      cases infixOfStrength strength kind with
      | none => exact .pure e
      | some op => exact .skip (hp.bind fun _ => ih _)

theorem infixed (h : C.LevelLocal level) (bound count : Nat) :
    C.Local 0 S (Parser.infixed level bound count) := by
  induction count generalizing S with
  | zero => exact h.unaryOperand
  | succ count ih => exact ih.bind fun _ => chain ih _ _ _

theorem conditional (h : C.LevelLocal level) (bound : Nat) :
    C.Local 0 S (Parser.conditional level bound) := by
  refine (h.infixed bound 7).bind fun _ => .acceptSign (by decide) ?_ (.pure _)
  exact h.expression.bind fun _ => (Local.expectSign .colon).bind fun _ =>
    h.expression.bind fun _ => .pure _

theorem assignmentBody (h : C.LevelLocal level) (bound : Nat) :
    C.Local 0 S (Parser.assignmentBody level bound) := by
  refine (h.conditional bound).bind fun left => .peekKind (fun kind => ?_) rfl
  cases hop : assignOp kind with
  | none => exact .pure left
  | some op =>
      cases left.isAssignable with
      | true => exact .skip (h.expression.bind fun _ => .pure _)
      | false =>
          refine .failHere fun k hk => ?_
          rw [hk.1]
          exact Option.isSome_of_eq_some hop

/-! ### Statements -/

theorem endStatement : C.Local 0 S Parser.endStatement := by
  refine .acceptSign (by decide) (.pure _) ?_
  rw [atStatementEnd_bind]
  refine .peek (fun t => ?_) (fun t u hk hnl => by rw [hk, hnl]) fun t u ht hu => by rw [ht, hu]; rfl
  cases t.kind.isSign .closeBrace || t.kind.isStop || t.newlineBefore with
  | true => exact .pure _
  | false => exact .unexpected

theorem binding (h : C.LevelLocal level) (kind : DeclKind) :
    C.Local 0 S (Parser.binding level kind) := by
  refine Local.expectName.bind fun _ => .acceptSign (by decide) (h.expression.bind fun _ => .pure _) ?_
  cases kind with
  | const => exact .failHere fun _ hk => hk.1
  | _ => exact .pure _

theorem bindings (h : C.LevelLocal level) (kind : DeclKind) (bound : Nat) :
    C.Local 0 S (Parser.bindings level kind bound) := by
  induction bound generalizing S with
  | zero => exact .pure _
  | succ bound ih =>
      refine (h.binding kind).bind fun _ => .acceptSign (by decide) ?_ (.pure _)
      exact ih.bind fun _ => .pure _

theorem branchBody (h : C.LevelLocal level) (inLoop : Bool) :
    C.Local 0 S (Parser.branchBody level inLoop) := by
  refine .skip ((Local.expectSign .openParen).bind fun _ => h.expression.bind fun _ =>
    (Local.expectSign .closeParen).bind fun _ => (h.body inLoop).bind fun _ => ?_)
  exact .acceptKeyword ((h.body inLoop).bind fun _ => .pure _) (.pure _)

theorem whileBody (h : C.LevelLocal level) : C.Local 0 S (Parser.whileBody level) :=
  .skip ((Local.expectSign .openParen).bind fun _ => h.expression.bind fun _ =>
    (Local.expectSign .closeParen).bind fun _ => (h.body true).bind fun _ => .pure _)

theorem jump (inLoop : Bool) {cause : ParseError.Cause} (stmt : Stmt)
    (hcause : ∀ kind, S kind → cause.Concerns kind) :
    C.Local 0 S (Parser.jump inLoop cause stmt) := by
  cases inLoop with
  | true => exact .skip (endStatement.bind fun _ => .pure _)
  | false => exact .failHere hcause

theorem returnBody (h : C.LevelLocal level) : C.Local 0 S (Parser.returnBody level) := by
  rw [LevelFollows.returnBody_eq]
  refine .skip (.peek (fun t => ?_) (fun t u hk hnl => by rw [hk, hnl])
    fun t u ht hu => by rw [ht, hu]; rfl)
  cases t.kind.isSign .semicolon ||
      (t.kind.isSign .closeBrace || t.kind.isStop || t.newlineBefore) with
  | true => exact endStatement.bind fun _ => .pure _
  | false => exact h.expression.bind fun _ => endStatement.bind fun _ => .pure _

theorem functionBody (h : C.LevelLocal level) (bound : Nat) :
    C.Local 0 S (Parser.functionBody level bound) := by
  refine .skip (.acceptName (fun word => ?_) (.failHere fun _ hk => hk.1))
  exact (h.definitionRest bound (some word)).bind fun _ => .pure _

theorem loopInit (h : C.LevelLocal level) (bound : Nat) :
    C.Local 0 S (Parser.loopInit level bound) := by
  refine .peekKind (fun kind => ?_) rfl
  cases kind.isSign .semicolon with
  | true => exact .pure _
  | false =>
      cases declKind kind with
      | none => exact h.expression.bind fun _ => .pure _
      | some declared => exact .skip ((h.bindings declared bound).bind fun _ => .pure _)

theorem unlessSign (h : C.LevelLocal level) {sign : Punctuator} (hsign : sign ≠ .closeBrace) :
    C.Local 0 S (Parser.unlessSign level sign) := by
  refine .atSign hsign fun absent => ?_
  cases absent with
  | true => exact .pure _
  | false => exact h.expression.bind fun _ => .pure _

theorem forBody (h : C.LevelLocal level) (bound : Nat) :
    C.Local 0 S (Parser.forBody level bound) := by
  refine .skip ((Local.expectSign .openParen).bind fun _ => Local.loopBinding.bind fun header => ?_)
  cases header with
  | some found =>
      obtain ⟨target, word⟩ := found
      refine h.expression.bind fun _ => (Local.expectSign .closeParen).bind fun _ =>
        (h.body true).bind fun _ => ?_
      cases word with
      | «in» => exact .pure _
      | of => exact .pure _
  | none =>
      exact (h.loopInit bound).bind fun _ => (Local.expectSign .semicolon).bind fun _ =>
        (h.unlessSign (by decide)).bind fun _ => (Local.expectSign .semicolon).bind fun _ =>
        (h.unlessSign (by decide)).bind fun _ => (Local.expectSign .closeParen).bind fun _ =>
        (h.body true).bind fun _ => .pure _

/-- A statement that no keyword or sign of its own begins. -/
theorem otherStatement (h : C.LevelLocal level) (bound : Nat) (kind : TokenKind) :
    C.Local 0 (fun k => k = kind ∧ S k)
      (match declKind kind with
        | some declared => do
          let _ ← advance
          let all ← Parser.bindings level declared bound
          Parser.endStatement
          pure (Stmt.declare declared all)
        | none => do
          let e ← level.assignment
          Parser.endStatement
          pure (Stmt.expr e)) := by
  cases declKind kind with
  | some declared =>
      exact .skip ((h.bindings declared bound).bind fun _ => endStatement.bind fun _ => .pure _)
  | none => exact h.expression.bind fun _ => endStatement.bind fun _ => .pure _

theorem statementBody (h : C.LevelLocal level) (bound : Nat) (inLoop : Bool) :
    C.Local 0 S (Parser.statementBody level bound inLoop) := by
  refine .peekKind (fun kind => ?_) rfl
  cases kind with
  | sign s =>
      cases s with
      | openBrace => exact (h.braced inLoop bound).bind fun _ => .pure _
      | semicolon => exact .skip (.pure _)
      | _ => exact h.otherStatement bound _
  | keyword word =>
      cases word with
      | «if» => exact h.branchBody inLoop
      | «for» => exact h.forBody bound
      | «while» => exact h.whileBody
      | «break» => exact jump inLoop .break fun _ hk => hk.1
      | «continue» => exact jump inLoop .continue fun _ hk => hk.1
      | «return» => exact h.returnBody
      | function => exact h.functionBody bound
      | _ => exact h.otherStatement bound _
  | _ => exact h.otherStatement bound _

end LevelLocal

/-- **All productions are local.** -/
theorem levels_local {C : Ending} (bound room : Nat) : C.LevelLocal (levels bound room) := by
  induction room with
  | zero =>
      exact ⟨fun _ => .failHere fun _ _ => trivial, .failHere fun _ _ => trivial,
        .failHere fun _ _ => trivial⟩
  | succ room ih =>
      exact ⟨fun inLoop => ih.statementBody bound inLoop, ih.assignmentBody bound,
        ih.unaryBody bound⟩

end Ending

end Parser

end Stencil.Script
