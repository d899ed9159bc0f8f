import Stencil.Proofs.Grammar.Formed
import Stencil.Script.Tree.Parse

/-!
# Grammar — the same tokens in another place

What a parser makes of some tokens does not depend on where they stand: not on positions, nor on
what comes after them, as long as it closes what they begin.  `C.Beside ts us` says that `ts` and
`us` begin with the same tokens, that `ts` ends there, and that `us` goes on with a token that
closes: the end, a brace or a parenthesis, or else a name that no loop header goes on with.

`C.Follows free n S k P p q` compares two parsers on such lists.  When `p` succeeds on `ts`, of at
most `n` tokens and with a first token in `S`, it has taken `k` tokens at least and its result has
`P`; and `q` succeeds on `us` with the same result and leaves what lies beside the rest, or it runs
out of room for nesting, if `C` allows for that.  Unless `free` holds this is said of runs only that
leave a token: a statement may end where the text ends, and before a new line, but not at a
parenthesis.

The rules below build such comparisons along the parser.  `Follows.bind`, `Follows.peekKind`,
`Follows.advance`, `Follows.acceptSign`, `Follows.atSign`, `Follows.expectSign`,
`Follows.acceptName`, `Follows.expectName` are one for each way of looking at a token.
-/

namespace Stencil.Script

namespace Parser

/-! ### Token lists -/

/-- Token lists that end with one `stop`. -/
inductive Ended : List Token → Prop where
  | stop {t : Token} : t.kind = .stop → Ended [t]
  | cons {t : Token} {ts : List Token} : t.kind.isStop = false → t.kind.Sound → Ended ts →
      Ended (t :: ts)

theorem Ended.length_pos {ts : List Token} (h : Ended ts) : 0 < ts.length := by
  cases h <;> simp

/-- The kind of the next token. -/
def headKind : List Token → TokenKind
  | [] => .stop
  | t :: _ => t.kind

/-- Whether a token of a kind, with others after it, closes what stands before it. -/
def Closes : TokenKind → List Token → Prop
  | .stop, _ => True
  | .sign .closeBrace, _ => True
  | .sign .closeParen, _ => True
  | .name word, rest => word ≠ "of" ∧ loopWord (headKind rest) = none
  | _, _ => False

/-- What the second of two lists goes on with, and whether its reader may run out of room. -/
structure Ending where
  head : Token
  tail : List Token
  closes : Closes head.kind tail
  deep : Prop

namespace Ending

/-- Whether a list of statements can end where the first list ends. -/
def EndsBlock (C : Ending) : Prop :=
  (C.head.kind.isSign .closeBrace || C.head.kind.isStop) = true

/-- Whether a statement can end where the first list ends. -/
def EndsStatement (C : Ending) : Prop :=
  (C.head.kind.isSign .closeBrace || C.head.kind.isStop || C.head.newlineBefore) = true

theorem EndsBlock.statement {C : Ending} (h : C.EndsBlock) : C.EndsStatement := by
  rw [EndsStatement, show (C.head.kind.isSign .closeBrace || C.head.kind.isStop) = true from h,
    Bool.true_or]

theorem endsBlock_of_stop {C : Ending} (h : C.head.kind = .stop) : C.EndsBlock := by
  rw [EndsBlock, h]
  rfl

theorem endsBlock_of_brace {C : Ending} (h : C.head.kind = .sign .closeBrace) : C.EndsBlock := by
  rw [EndsBlock, h]
  rfl

/-- Lists that begin with the same tokens. -/
inductive Beside (C : Ending) : List Token → List Token → Prop where
  | stop {t : Token} : t.kind = .stop → C.Beside [t] (C.head :: C.tail)
  | cons {t u : Token} {ts us : List Token} : t.kind = u.kind → t.newlineBefore = u.newlineBefore →
      t.kind.isStop = false → t.kind.Sound → C.Beside ts us → C.Beside (t :: ts) (u :: us)

theorem Beside.ended {C : Ending} {ts us : List Token} (h : C.Beside ts us) : Ended ts := by
  induction h with
  | stop h => exact .stop h
  | cons _ _ h hs _ ih => exact .cons h hs ih

/-- How the second parser may end: with the given result, or for want of room. -/
def Reaches (C : Ending) {α : Type} (q : Parser α) (us : List Token) (a : α) (rest : List Token) :
    Prop :=
  (C.deep ∧ ∃ p, q.run us = .error ⟨.nestingTooDeep, p⟩) ∨
    ∃ rest', q.run us = .ok (a, rest') ∧ C.Beside rest rest'

/-- **Parsers on lists beside each other.** -/
structure Follows (C : Ending) {α : Type} (free : Prop) (n : Nat) (S : TokenKind → Prop) (k : Nat)
    (P : α → Prop) (p q : Parser α) : Prop where
  left : ∀ ts a rest, Ended ts → ts.length ≤ n → S (headKind ts) → p.run ts = .ok (a, rest) →
    P a ∧ Ended rest ∧ rest.length + k ≤ ts.length
  right : ∀ ts us a rest, C.Beside ts us → ts.length ≤ n → S (headKind ts) →
    p.run ts = .ok (a, rest) → free ∨ 1 < rest.length → C.Reaches q us a rest

end Ending

/-- Any first token. -/
def Any (_ : TokenKind) : Prop :=
  True

/-! ### Runs -/

section
variable {α β : Type}

theorem run_bind (p : Parser α) (f : α → Parser β) (ts : List Token) :
    (p >>= f).run ts = match p.run ts with
      | .ok (a, rest) => (f a).run rest
      | .error e => .error e := by
  rw [StateT.run_bind]
  cases p.run ts <;> rfl

theorem run_bind_ok {p : Parser α} {f : α → Parser β} {ts rest : List Token} {b : β}
    (h : (p >>= f).run ts = .ok (b, rest)) :
    ∃ a mid, p.run ts = .ok (a, mid) ∧ (f a).run mid = .ok (b, rest) := by
  rw [run_bind] at h
  cases e : p.run ts with
  | error e' => rw [e] at h; cases h
  | ok r =>
      rw [e] at h
      exact ⟨r.1, r.2, rfl, h⟩

theorem run_bind_of_ok {p : Parser α} (f : α → Parser β) {ts mid : List Token} {a : α}
    (h : p.run ts = .ok (a, mid)) : (p >>= f).run ts = (f a).run mid := by
  rw [run_bind, h]

theorem run_bind_of_error {p : Parser α} (f : α → Parser β) {ts : List Token} {e : ParseError}
    (h : p.run ts = .error e) : (p >>= f).run ts = .error e := by
  rw [run_bind, h]

@[simp] theorem run_pure (a : α) (ts : List Token) :
    (pure a : Parser α).run ts = .ok (a, ts) := rfl

@[simp] theorem run_throw (e : ParseError) (ts : List Token) :
    (throw e : Parser α).run ts = .error e := rfl

theorem run_peek (t : Token) (ts : List Token) : peek.run (t :: ts) = .ok (t, t :: ts) := rfl

theorem run_peekKind (t : Token) (ts : List Token) :
    peekKind.run (t :: ts) = .ok (t.kind, t :: ts) := rfl

theorem run_atSign (sign : Punctuator) (t : Token) (ts : List Token) :
    (atSign sign).run (t :: ts) = .ok (t.kind.isSign sign, t :: ts) := rfl

theorem run_advance {t : Token} (h : t.kind.isStop = false) (ts : List Token) :
    advance.run (t :: ts) = .ok (t, ts) := by
  show (if t.kind.isStop = true then _ else _ : Parser Token).run (t :: ts) = _
  rw [h]
  rfl

theorem run_advance_stop {t : Token} (h : t.kind = .stop) (ts : List Token) :
    advance.run (t :: ts) = .ok (t, t :: ts) := by
  show (if t.kind.isStop = true then _ else _ : Parser Token).run (t :: ts) = _
  rw [h]
  rfl

theorem run_acceptName_some {t : Token} {word : String} (h : t.kind = .name word)
    (ts : List Token) : acceptName.run (t :: ts) = .ok (some word, ts) := by
  rw [acceptName, run_bind_of_ok _ (run_peekKind t ts), h]
  exact run_bind_of_ok _ (run_advance (by rw [h]; rfl) ts)

theorem run_acceptName_none {t : Token} (h : ∀ word, t.kind ≠ .name word) (ts : List Token) :
    acceptName.run (t :: ts) = .ok (none, t :: ts) := by
  rw [acceptName, run_bind_of_ok _ (run_peekKind t ts)]
  cases hk : t.kind with
  | name word => exact absurd hk (h word)
  | _ => rfl

theorem run_unexpected (t : Token) (ts : List Token) :
    (unexpected : Parser α).run (t :: ts) = .error ⟨.unexpected t.kind, t.position⟩ := rfl

/-- Takes the next token if its kind passes a test. -/
def accept (test : TokenKind → Bool) : Parser Bool := do
  let kind ← peekKind
  if test kind then do
    let _ ← advance
    pure true
  else pure false

theorem acceptSign_eq (sign : Punctuator) : acceptSign sign = accept (·.isSign sign) := by
  funext ts
  cases ts <;> rfl

theorem acceptKeyword_eq (word : Keyword) : acceptKeyword word = accept (·.isKeyword word) := rfl

theorem run_accept_true {test : TokenKind → Bool} (hstop : test .stop = false) {t : Token}
    (h : test t.kind = true) (ts : List Token) : (accept test).run (t :: ts) = .ok (true, ts) := by
  have hs : t.kind.isStop = false := TokenKind.isStop_eq_false fun hk => by
    rw [hk, hstop] at h
    cases h
  rw [accept, run_bind_of_ok _ (run_peekKind t ts), h]
  exact run_bind_of_ok _ (run_advance hs ts)

theorem run_accept_false {test : TokenKind → Bool} {t : Token} (h : test t.kind = false)
    (ts : List Token) : (accept test).run (t :: ts) = .ok (false, t :: ts) := by
  rw [accept, run_bind_of_ok _ (run_peekKind t ts), h]
  rfl

theorem eq_sign_of_isSign {kind : TokenKind} {sign : Punctuator} (h : kind.isSign sign = true) :
    kind = .sign sign := by
  cases kind with
  | sign actual => exact congrArg TokenKind.sign (by simpa [TokenKind.isSign] using h)
  | _ => cases h

theorem run_acceptSign_true {sign : Punctuator} {t : Token} (h : t.kind.isSign sign = true)
    (ts : List Token) : (acceptSign sign).run (t :: ts) = .ok (true, ts) := by
  rw [acceptSign_eq]
  exact run_accept_true rfl h ts

theorem run_acceptSign_false {sign : Punctuator} {t : Token} (h : t.kind.isSign sign = false)
    (ts : List Token) : (acceptSign sign).run (t :: ts) = .ok (false, t :: ts) := by
  rw [acceptSign_eq]
  exact run_accept_false h ts

theorem run_expectSign_true {sign : Punctuator} {t : Token} (h : t.kind.isSign sign = true)
    (ts : List Token) : (expectSign sign).run (t :: ts) = .ok ((), ts) := by
  rw [expectSign, run_bind_of_ok _ (run_acceptSign_true h ts)]
  rfl

theorem run_expectSign_false {sign : Punctuator} {t : Token} (h : t.kind.isSign sign = false)
    (ts : List Token) :
    (expectSign sign).run (t :: ts) = .error ⟨.unexpected t.kind, t.position⟩ := by
  rw [expectSign, run_bind_of_ok _ (run_acceptSign_false h ts)]
  exact run_unexpected t ts

end

/-! ### Composition -/

namespace Ending.Follows

variable {C : Ending} {α β : Type} {free free' : Prop} {n m k l : Nat} {S S' : TokenKind → Prop}

theorem mono {P : α → Prop} {p q : Parser α} (h : C.Follows free n S k P p q) (hm : m ≤ n)
    (hl : l ≤ k) : C.Follows free m S l P p q where
  left ts a rest he hn hs e := by
    obtain ⟨hp, hr, hk⟩ := h.left ts a rest he (Nat.le_trans hn hm) hs e
    exact ⟨hp, hr, by omega⟩
  right ts us a rest hb hn hs e hf := h.right ts us a rest hb (Nat.le_trans hn hm) hs e hf

theorem imp {P Q : α → Prop} {p q : Parser α} (h : C.Follows free n S k P p q)
    (hq : ∀ a, P a → Q a) : C.Follows free n S k Q p q where
  left ts a rest he hn hs e := by
    obtain ⟨hp, hr⟩ := h.left ts a rest he hn hs e
    exact ⟨hq a hp, hr⟩
  right := h.right

/-- Fewer first tokens, and fewer endings. -/
theorem weaken {P : α → Prop} {p q : Parser α} (h : C.Follows free n S k P p q)
    {T : TokenKind → Prop} (hf : free' → free) (hS : ∀ kind, T kind → S kind) :
    C.Follows free' n T k P p q where
  left ts a rest he hn hs e := h.left ts a rest he hn (hS _ hs) e
  right ts us a rest hb hn hs e hfree :=
    h.right ts us a rest hb hn (hS _ hs) e (hfree.imp_left hf)

theorem drop {P : α → Prop} {p q : Parser α} (h : C.Follows free n S k P p q) :
    C.Follows free n S 0 P p q :=
  h.mono (Nat.le_refl _) (Nat.zero_le _)

/-- A parser for expressions, among statements. -/
theorem anyway {P : α → Prop} {p q : Parser α} (h : C.Follows True n Any k P p q) :
    C.Follows free n S k P p q :=
  h.weaken (fun _ => trivial) fun _ _ => trivial

theorem of_fails {P : α → Prop} {p q : Parser α}
    (h : ∀ ts, Ended ts → S (headKind ts) → ∃ e, p.run ts = .error e) :
    C.Follows free n S k P p q where
  left ts a rest he _ hs e := by
    obtain ⟨e', h'⟩ := h ts he hs
    rw [h'] at e
    cases e
  right ts us a rest hb _ hs e _ := by
    obtain ⟨e', h'⟩ := h ts hb.ended hs
    rw [h'] at e
    cases e

theorem failHere {P : α → Prop} {q : Parser α} (cause : ParseError.Cause) :
    C.Follows free n S k P (Parser.failHere cause) q :=
  of_fails fun ts he _ => by cases he <;> exact ⟨_, rfl⟩

theorem unexpected {P : α → Prop} {q : Parser α} :
    C.Follows free n S k P Parser.unexpected q :=
  of_fails fun ts he _ => by cases he <;> exact ⟨_, rfl⟩

theorem pure {P : α → Prop} {a : α} (h : P a) :
    C.Follows free n S 0 P (Pure.pure a) (Pure.pure a) where
  left ts b rest he _ _ e := by
    cases e
    exact ⟨h, he, Nat.le_refl _⟩
  right ts us b rest hb _ _ e _ := by
    cases e
    exact .inr ⟨us, rfl, hb⟩

/-- **Parsers in sequence.** -/
theorem bind {P : α → Prop} {Q : β → Prop} {p q : Parser α} {f g : α → Parser β}
    (hp : C.Follows free n S k P p q)
    (hf : ∀ a, P a → C.Follows free (n - k) Any l Q (f a) (g a)) :
    C.Follows free n S k Q (p >>= f) (q >>= g) where
  left ts b rest he hn hs e := by
    obtain ⟨a, mid, e₁, e₂⟩ := run_bind_ok e
    obtain ⟨ha, hmid, hk⟩ := hp.left ts a mid he hn hs e₁
    obtain ⟨hb, hrest, hl⟩ := (hf a ha).left mid b rest hmid (by omega) trivial e₂
    exact ⟨hb, hrest, by omega⟩
  right ts us b rest hbeside hn hs e hfree := by
    obtain ⟨a, mid, e₁, e₂⟩ := run_bind_ok e
    obtain ⟨ha, hmid, hk⟩ := hp.left ts a mid hbeside.ended hn hs e₁
    obtain ⟨-, -, hl⟩ := (hf a ha).left mid b rest hmid (by omega) trivial e₂
    have hfree' : free ∨ 1 < mid.length := hfree.imp_right fun h => by omega
    rcases hp.right ts us a mid hbeside hn hs e₁ hfree' with ⟨hd, pos, e'⟩ | ⟨mid', e', hb'⟩
    · exact .inl ⟨hd, pos, run_bind_of_error g e'⟩
    · rcases (hf a ha).right mid mid' b rest hb' (by omega) trivial e₂ hfree with
        ⟨hd, pos, e''⟩ | ⟨rest', e'', hb''⟩
      · exact .inl ⟨hd, pos, by rw [run_bind_of_ok g e', e'']⟩
      · exact .inr ⟨rest', by rw [run_bind_of_ok g e', e''], hb''⟩

theorem reaches_bind {q : Parser α} {g : α → Parser β} {us mid : List Token} {a : α} {b : β}
    {rest : List Token} (e : q.run us = .ok (a, mid)) (h : C.Reaches (g a) mid b rest) :
    C.Reaches (q >>= g) us b rest := by
  rw [Reaches, run_bind_of_ok g e]
  exact h

/-! ### Looking at a token -/

/-- A look at the next kind.  At the end of the first list the two parsers see different kinds. -/
theorem peekKind {Q : β → Prop} {f g : TokenKind → Parser β}
    (hmore : ∀ kind, kind.isStop = false → kind.Sound → S kind →
      C.Follows free n (· = kind) k Q (f kind) (g kind))
    (hend : S .stop → C.Follows free n (· = .stop) k Q (f .stop) (g C.head.kind)) :
    C.Follows free n S k Q (Parser.peekKind >>= f) (Parser.peekKind >>= g) where
  left ts b rest he hn hs e := by
    cases he with
    | @stop t ht =>
        rw [run_bind_of_ok f (run_peekKind t []), ht] at e
        exact (hend (ht ▸ hs)).left [t] b rest (.stop ht) hn ht e
    | @cons t ts h hsound he =>
        rw [run_bind_of_ok f (run_peekKind t ts)] at e
        exact (hmore t.kind h hsound hs).left (t :: ts) b rest (.cons h hsound he) hn rfl e
  right ts us b rest hb hn hs e hfree := by
    cases hb with
    | @stop t ht =>
        rw [run_bind_of_ok f (run_peekKind t []), ht] at e
        refine reaches_bind (run_peekKind _ _) ?_
        exact (hend (ht ▸ hs)).right [t] _ b rest (.stop ht) hn ht e hfree
    | @cons t u ts us hk hnl h hsound hb =>
        rw [run_bind_of_ok f (run_peekKind t ts)] at e
        refine reaches_bind (run_peekKind u us) ?_
        rw [← hk]
        exact (hmore t.kind h hsound hs).right (t :: ts) _ b rest (.cons hk hnl h hsound hb) hn rfl e
          hfree

/-- Taking a token that is there. -/
theorem advance {Q : β → Prop} {f g : Token → Parser β} (hS : ∀ kind, S kind → kind.isStop = false)
    (hf : ∀ t u : Token, t.kind = u.kind → S t.kind → t.kind.Sound →
      C.Follows free (n - 1) Any k Q (f t) (g u)) :
    C.Follows free n S (k + 1) Q (Parser.advance >>= f) (Parser.advance >>= g) where
  left ts b rest he hn hs e := by
    cases he with
    | @stop t ht =>
        have h := hS _ hs
        rw [headKind, ht] at h
        cases h
    | @cons t ts h hsound he =>
        rw [run_bind_of_ok f (run_advance h ts)] at e
        rw [List.length_cons] at hn
        obtain ⟨hq, hr, hk⟩ := (hf t t rfl hs hsound).left ts b rest he (by omega) trivial e
        exact ⟨hq, hr, by rw [List.length_cons]; omega⟩
  right ts us b rest hb hn hs e hfree := by
    cases hb with
    | @stop t ht =>
        have h := hS _ hs
        rw [headKind, ht] at h
        cases h
    | @cons t u ts us hk hnl h hsound hb =>
        rw [run_bind_of_ok f (run_advance h ts)] at e
        rw [List.length_cons] at hn
        refine reaches_bind (run_advance (hk ▸ h) us) ?_
        exact (hf t u hk hs hsound).right ts us b rest hb (by omega) trivial e hfree

/-- Taking the token that has been looked at. -/
theorem skip {Q : β → Prop} {f g : Parser β} {kind : TokenKind} (hkind : kind.isStop = false)
    (hf : C.Follows free (n - 1) Any k Q f g) :
    C.Follows free n (· = kind) 1 Q (Parser.advance >>= fun _ => f)
      (Parser.advance >>= fun _ => g) :=
  mono (advance (fun _ hk => by rw [hk, hkind]) fun _ _ _ _ _ => hf) (Nat.le_refl _) (by omega)

/-- A look at a sign, if without it a token is taken. -/
theorem atSign {Q : β → Prop} {f g : Bool → Parser β} {sign : Punctuator}
    (htrue : C.Follows free n (· = .sign sign) 0 Q (f true) (g true))
    (hfalse : C.Follows free n Any 1 Q (f false) (g false)) :
    C.Follows free n S 0 Q (Parser.atSign sign >>= f) (Parser.atSign sign >>= g) where
  left ts b rest he hn hs e := by
    have split : ∀ (t : Token) (ts : List Token), Ended (t :: ts) → (t :: ts).length ≤ n →
        (Parser.atSign sign >>= f).run (t :: ts) = .ok (b, rest) →
        Q b ∧ Ended rest ∧ rest.length + 0 ≤ (t :: ts).length := by
      intro t ts he hn e
      rw [run_bind_of_ok f (run_atSign sign t ts)] at e
      cases h : t.kind.isSign sign with
      | true =>
          rw [h] at e
          exact htrue.left _ b rest he hn (eq_sign_of_isSign h) e
      | false =>
          rw [h] at e
          obtain ⟨hq, hr, hk⟩ := hfalse.left _ b rest he hn trivial e
          exact ⟨hq, hr, by omega⟩
    cases he with
    | stop ht => exact split _ _ (.stop ht) hn e
    | cons h hsound he => exact split _ _ (.cons h hsound he) hn e
  right ts us b rest hb hn hs e hfree := by
    cases hb with
    | @stop t ht =>
        -- the last token is no sign, so one would be taken, and there is none to take
        rw [run_bind_of_ok f (run_atSign sign t []), show t.kind.isSign sign = false by
          rw [ht]; rfl] at e
        obtain ⟨-, hr, hk⟩ := hfalse.left [t] b rest (.stop ht) hn trivial e
        have := hr.length_pos
        simp only [List.length_cons, List.length_nil] at hk
        omega
    | @cons t u ts us hk hnl h hsound hb =>
        have hb' := Beside.cons hk hnl h hsound hb
        rw [run_bind_of_ok f (run_atSign sign t ts)] at e
        refine reaches_bind (run_atSign sign u us) ?_
        rw [← hk]
        cases hsign : t.kind.isSign sign with
        | true =>
            rw [hsign] at e
            exact htrue.right _ _ b rest hb' hn (eq_sign_of_isSign hsign) e hfree
        | false =>
            rw [hsign] at e
            exact hfalse.right _ _ b rest hb' hn trivial e hfree

/-- Taking a token that passes a test, which no token does where the first list ends. -/
theorem accept {Q : β → Prop} {f g : Bool → Parser β} {test : TokenKind → Bool}
    (htest : ∀ kind rest, Closes kind rest → test kind = false)
    (htrue : C.Follows free (n - 1) Any l Q (f true) (g true))
    (hfalse : C.Follows free n S k Q (f false) (g false)) (hl : k ≤ l + 1) :
    C.Follows free n S k Q (Parser.accept test >>= f) (Parser.accept test >>= g) where
  left ts b rest he hn hs e := by
    have hstop := htest .stop [] trivial
    cases he with
    | @stop t ht =>
        rw [run_bind_of_ok f (run_accept_false (ht ▸ hstop) [])] at e
        exact hfalse.left [t] b rest (.stop ht) hn hs e
    | @cons t ts h hsound he =>
        cases hk : test t.kind with
        | true =>
            rw [run_bind_of_ok f (run_accept_true hstop hk ts)] at e
            rw [List.length_cons] at hn ⊢
            obtain ⟨hq, hr, hk⟩ := htrue.left ts b rest he (by omega) trivial e
            exact ⟨hq, hr, by omega⟩
        | false =>
            rw [run_bind_of_ok f (run_accept_false hk ts)] at e
            exact hfalse.left _ b rest (.cons h hsound he) hn hs e
  right ts us b rest hb hn hs e hfree := by
    have hstop := htest .stop [] trivial
    cases hb with
    | @stop t ht =>
        rw [run_bind_of_ok f (run_accept_false (ht ▸ hstop) [])] at e
        refine reaches_bind (run_accept_false (htest _ _ C.closes) _) ?_
        exact hfalse.right [t] _ b rest (.stop ht) hn hs e hfree
    | @cons t u ts us hk hnl h hsound hb =>
        cases ht : test t.kind with
        | true =>
            rw [run_bind_of_ok f (run_accept_true hstop ht ts)] at e
            rw [List.length_cons] at hn
            refine reaches_bind (run_accept_true hstop (hk ▸ ht) us) ?_
            exact htrue.right ts us b rest hb (by omega) trivial e hfree
        | false =>
            rw [run_bind_of_ok f (run_accept_false ht ts)] at e
            refine reaches_bind (run_accept_false (hk ▸ ht) us) ?_
            exact hfalse.right _ _ b rest (.cons hk hnl h hsound hb) hn hs e hfree

/-- Taking a sign if it is next, which cannot be next where the first list ends. -/
theorem acceptSign {Q : β → Prop} {f g : Bool → Parser β} {sign : Punctuator}
    (hsign : ¬ Closes (.sign sign) [])
    (htrue : C.Follows free (n - 1) Any l Q (f true) (g true))
    (hfalse : C.Follows free n S k Q (f false) (g false)) (hl : k ≤ l + 1) :
    C.Follows free n S k Q (Parser.acceptSign sign >>= f) (Parser.acceptSign sign >>= g) := by
  rw [acceptSign_eq]
  refine accept (fun kind rest hc => ?_) htrue hfalse hl
  cases h : kind.isSign sign with
  | false => rfl
  | true =>
      rw [eq_sign_of_isSign h] at hc
      exact absurd (by cases sign <;> exact hc) hsign

/-- Taking a keyword if it is next. -/
theorem acceptKeyword {Q : β → Prop} {f g : Bool → Parser β} {word : Keyword}
    (htrue : C.Follows free (n - 1) Any l Q (f true) (g true))
    (hfalse : C.Follows free n S k Q (f false) (g false)) (hl : k ≤ l + 1) :
    C.Follows free n S k Q (Parser.acceptKeyword word >>= f) (Parser.acceptKeyword word >>= g) := by
  rw [acceptKeyword_eq]
  refine accept (fun kind rest hc => ?_) htrue hfalse hl
  cases kind <;> first | rfl | cases hc

/-- A look at the next token. -/
theorem peek {Q : β → Prop} {f g : Token → Parser β}
    (hmore : ∀ t u : Token, t.kind = u.kind → t.newlineBefore = u.newlineBefore →
      t.kind.isStop = false → C.Follows free n (· = t.kind) k Q (f t) (g u))
    (hend : ∀ t : Token, t.kind = .stop → C.Follows free n (· = .stop) k Q (f t) (g C.head)) :
    C.Follows free n S k Q (Parser.peek >>= f) (Parser.peek >>= g) where
  left ts b rest he hn _ e := by
    cases he with
    | @stop t ht => exact (hend t ht).left [t] b rest (.stop ht) hn ht e
    | @cons t ts h hsound he =>
        exact (hmore t t rfl rfl h).left (t :: ts) b rest (.cons h hsound he) hn rfl e
  right ts us b rest hb hn _ e hfree := by
    cases hb with
    | @stop t ht => exact (hend t ht).right [t] _ b rest (.stop ht) hn ht e hfree
    | @cons t u ts us hk hnl h hsound hb =>
        exact (hmore t u hk hnl h).right (t :: ts) (u :: us) b rest (.cons hk hnl h hsound hb) hn rfl
          e hfree

/-- Taking a token, without which the first parser fails. -/
theorem take {Q : β → Prop} {f g : Token → Parser β}
    (hstop : ∀ t : Token, t.kind = .stop → ∃ e, (f t).run [t] = .error e)
    (hf : ∀ t u : Token, t.kind = u.kind → t.kind.isStop = false → t.kind.Sound →
      C.Follows free (n - 1) Any k Q (f t) (g u)) :
    C.Follows free n S (k + 1) Q (Parser.advance >>= f) (Parser.advance >>= g) where
  left ts b rest he hn hs e := by
    cases he with
    | @stop t ht =>
        obtain ⟨e', h'⟩ := hstop t ht
        rw [run_bind_of_ok f (run_advance_stop ht []), h'] at e
        cases e
    | @cons t ts h hsound he =>
        exact (advance (S := fun kind => kind = t.kind) (fun _ hk => hk ▸ h)
          fun t' u hk hs' hsound' => hf t' u hk (hs' ▸ h) hsound').left _ b rest
          (.cons h hsound he) hn rfl e
  right ts us b rest hb hn hs e hfree := by
    cases hb with
    | @stop t ht =>
        obtain ⟨e', h'⟩ := hstop t ht
        rw [run_bind_of_ok f (run_advance_stop ht []), h'] at e
        cases e
    | @cons t u ts us hk hnl h hsound hb =>
        exact (advance (S := fun kind => kind = t.kind) (fun _ hk => hk ▸ h)
          fun t' u hk hs' hsound' => hf t' u hk (hs' ▸ h) hsound').right _ _ b rest
          (.cons hk hnl h hsound hb) hn rfl e hfree

/-- Taking a name if one is next.  Where the first list ends the second may go on with a name, so that
the first parser has to fail there. -/
theorem acceptName {Q : β → Prop} {f g : Option String → Parser β}
    (hsome : ∀ word, isName word = true →
      C.Follows free (n - 1) Any l Q (f (some word)) (g (some word)))
    (hnone : C.Follows free n S (k + 1) Q (f none) (g none)) (hl : k ≤ l) :
    C.Follows free n S (k + 1) Q (Parser.acceptName >>= f) (Parser.acceptName >>= g) where
  left ts b rest he hn hs e := by
    cases he with
    | @stop t ht =>
        rw [run_bind_of_ok f (run_acceptName_none (by rw [ht]; nofun) [])] at e
        exact hnone.left [t] b rest (.stop ht) hn hs e
    | @cons t ts h hsound he =>
        by_cases hk : ∃ word, t.kind = .name word
        · obtain ⟨word, hk⟩ := hk
          rw [run_bind_of_ok f (run_acceptName_some hk ts)] at e
          rw [List.length_cons] at hn ⊢
          rw [hk] at hsound
          obtain ⟨hq, hr, hk⟩ := (hsome word hsound).left ts b rest he (by omega) trivial e
          exact ⟨hq, hr, by omega⟩
        · rw [run_bind_of_ok f (run_acceptName_none (fun w hw => hk ⟨w, hw⟩) ts)] at e
          exact hnone.left _ b rest (.cons h hsound he) hn hs e
  right ts us b rest hb hn hs e hfree := by
    cases hb with
    | @stop t ht =>
        rw [run_bind_of_ok f (run_acceptName_none (by rw [ht]; nofun) [])] at e
        obtain ⟨-, hr, hk⟩ := hnone.left [t] b rest (.stop ht) hn hs e
        have := hr.length_pos
        rw [List.length_singleton] at hk
        omega
    | @cons t u ts us hkind hnl h hsound hb =>
        by_cases hk : ∃ word, t.kind = .name word
        · obtain ⟨word, hk⟩ := hk
          rw [run_bind_of_ok f (run_acceptName_some hk ts)] at e
          rw [List.length_cons] at hn
          rw [hk] at hsound
          refine reaches_bind (run_acceptName_some (hkind ▸ hk) us) ?_
          exact (hsome word hsound).right ts us b rest hb (by omega) trivial e hfree
        · rw [run_bind_of_ok f (run_acceptName_none (fun w hw => hk ⟨w, hw⟩) ts)] at e
          refine reaches_bind (run_acceptName_none (fun w hw => hk ⟨w, hkind.trans hw⟩) us) ?_
          exact hnone.right _ _ b rest (.cons hkind hnl h hsound hb) hn hs e hfree

/-- Taking a name that must be next. -/
theorem expectName :
    C.Follows free n S 1 (fun word => isName word = true) Parser.expectName Parser.expectName :=
  acceptName (l := 0) (fun _ hw => .pure hw) .unexpected (Nat.le_refl _)

/-- Where the first list ends and the second may not, a parser that takes nothing. -/
theorem pureAtEnd {P : α → Prop} {a : α} {q : Parser α} (h : P a) (hq : free → q = Pure.pure a) :
    C.Follows free n (· = .stop) 0 P (Pure.pure a) q where
  left ts b rest he _ _ e := by
    cases e
    exact ⟨h, he, Nat.le_refl _⟩
  right ts us b rest hb _ hs e hfree := by
    cases e
    cases hb with
    | @stop t ht =>
        rw [hq (hfree.resolve_right (by simp))]
        exact .inr ⟨_, rfl, .stop ht⟩
    | @cons t u ts us hk hnl h hsound hb =>
        rw [show t.kind = .stop from hs] at h
        cases h

/-- At the end of the first list, if nothing may end there. -/
theorem closedOff {P : α → Prop} {p q q' : Parser α} (h : C.Follows free n (· = .stop) k P p q')
    (hfree : ¬ free) : C.Follows free n (· = .stop) k P p q where
  left := h.left
  right ts us b rest hb hn hs e hr := by
    cases hb with
    | @stop t ht =>
        obtain ⟨-, -, hk⟩ := h.left [t] b rest (.stop ht) hn hs e
        rw [List.length_singleton] at hk
        exact absurd hr (not_or.mpr ⟨hfree, by omega⟩)
    | @cons t u ts us hk hnl h hsound hb =>
        rw [show t.kind = .stop from hs] at h
        cases h

/-- No list is empty. -/
theorem zero {P : α → Prop} {p q : Parser α} : C.Follows free 0 S k P p q where
  left ts a rest he hn _ _ := absurd he.length_pos (by omega)
  right ts us a rest hb hn _ _ _ := absurd hb.ended.length_pos (by omega)

/-- **A parser and one that takes a token after it.**  The first does not end where its list
does, whether or not it might. -/
theorem bindClosed {P : α → Prop} {Q : β → Prop} {p q : Parser α} {f g : α → Parser β}
    (hp : C.Follows free n S k P p q)
    (hf : ∀ a, P a → C.Follows True (n - k) Any (l + 1) Q (f a) (g a)) :
    C.Follows True n S k Q (p >>= f) (q >>= g) where
  left ts b rest he hn hs e := by
    obtain ⟨a, mid, e₁, e₂⟩ := run_bind_ok e
    obtain ⟨ha, hmid, hk⟩ := hp.left ts a mid he hn hs e₁
    obtain ⟨hb, hrest, hl⟩ := (hf a ha).left mid b rest hmid (by omega) trivial e₂
    exact ⟨hb, hrest, by omega⟩
  right ts us b rest hbeside hn hs e _ := by
    obtain ⟨a, mid, e₁, e₂⟩ := run_bind_ok e
    obtain ⟨ha, hmid, hk⟩ := hp.left ts a mid hbeside.ended hn hs e₁
    obtain ⟨-, hrest, hl⟩ := (hf a ha).left mid b rest hmid (by omega) trivial e₂
    have hmore : 1 < mid.length := by
      have := hrest.length_pos
      omega
    rcases hp.right ts us a mid hbeside hn hs e₁ (.inr hmore) with ⟨hd, pos, e'⟩ | ⟨mid', e', hb'⟩
    · exact .inl ⟨hd, pos, run_bind_of_error g e'⟩
    · exact reaches_bind e' ((hf a ha).right mid mid' b rest hb' (by omega) trivial e₂
        (.inl trivial))

/-- Taking a sign that must be next. -/
theorem expectSign (sign : Punctuator) :
    C.Follows free n S 1 (fun _ => True) (Parser.expectSign sign) (Parser.expectSign sign) where
  left ts b rest he _ _ e := by
    cases he with
    | @stop t ht =>
        rw [run_expectSign_false (by rw [ht]; rfl)] at e
        cases e
    | @cons t ts h hsound he =>
        cases hs : t.kind.isSign sign with
        | true =>
            rw [run_expectSign_true hs] at e
            cases e
            exact ⟨trivial, he, by simp⟩
        | false => rw [run_expectSign_false hs] at e; cases e
  right ts us b rest hb _ _ e _ := by
    cases hb with
    | @stop t ht =>
        rw [run_expectSign_false (by rw [ht]; rfl)] at e
        cases e
    | @cons t u ts us hk hnl h hsound hb =>
        cases hs : t.kind.isSign sign with
        | true =>
            rw [run_expectSign_true hs] at e
            cases e
            exact .inr ⟨us, run_expectSign_true (hk ▸ hs) us, hb⟩
        | false => rw [run_expectSign_false hs] at e; cases e

end Ending.Follows

end Parser

end Stencil.Script
