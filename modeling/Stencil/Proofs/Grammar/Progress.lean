import Stencil.Proofs.Grammar.Productions
import Stencil.Proofs.Grammar.Walk

/-!
# Grammar — each production takes tokens, and the reading ends

`Stopped ts` says that a list of tokens ends with `stop`; others may be in it before.  `Passed k ts rest` says
that `rest` is what is left of `ts` after `k` tokens or more, none of which is `stop`.

`Ends x walker result next` says that a walk comes from `walker` to `next` with `result`, at all depths from
some depth on.

`Agrees S n k nesting loops x p` compares a walk with a parser on tokens that end with `stop`, `n` of them at
most and with a first one in `S`.  Both succeed with the same result, after at least `k` tokens and at the same
place, or both fail with the same error; and the walk ends, in as many levels and loops as before.

The rules build such comparisons along the grammar.  A loop is compared by induction on the bound of the
parser's loop: each round takes a token, so that the rest is shorter by one, and a bound that is no less than
the number of tokens left stays so.  The levels are compared by induction on the room that is left.

`walk_ends`: **every walk ends**, for all places of the grammar and all tokens that end with `stop`.
-/

namespace Stencil.Script.Parser

/-! ### Tokens that are passed -/

/-- Tokens with `stop` as the last one. -/
def Stopped (ts : List Token) : Prop :=
  ∃ front stop, ts = front ++ [stop] ∧ stop.kind = .stop

/-- What is left after tokens before the end. -/
def Passed (k : Nat) (ts rest : List Token) : Prop :=
  ∃ taken, ts = taken ++ rest ∧ (∀ t ∈ taken, t.kind ≠ .stop) ∧ k ≤ taken.length

theorem Stopped.exists_cons {ts : List Token} (h : Stopped ts) : ∃ t rest, ts = t :: rest := by
  obtain ⟨front, stop, rfl, -⟩ := h
  exact List.exists_cons_of_ne_nil (List.append_ne_nil_of_right_ne_nil _ (List.cons_ne_nil _ _))

namespace Passed

variable {j k : Nat} {ts mid rest : List Token}

theorem refl (ts : List Token) : Passed 0 ts ts :=
  ⟨[], rfl, fun _ h => absurd h List.not_mem_nil, Nat.le_refl _⟩

theorem one {t : Token} (h : t.kind ≠ .stop) (ts : List Token) : Passed 1 (t :: ts) ts :=
  ⟨[t], rfl, fun u hu => by rwa [List.mem_singleton.mp hu], Nat.le_refl _⟩

theorem mono (h : Passed k ts rest) (hj : j ≤ k) : Passed j ts rest := by
  obtain ⟨taken, hts, hstop, hk⟩ := h
  exact ⟨taken, hts, hstop, Nat.le_trans hj hk⟩

theorem trans (h : Passed j ts mid) (h' : Passed k mid rest) : Passed (j + k) ts rest := by
  obtain ⟨taken, rfl, hstop, hj⟩ := h
  obtain ⟨more, rfl, hstop', hk⟩ := h'
  refine ⟨taken ++ more, (List.append_assoc _ _ _).symm, List.forall_mem_append.mpr ⟨hstop, hstop'⟩, ?_⟩
  rw [List.length_append]
  exact Nat.add_le_add hj hk

theorem length (h : Passed k ts rest) : rest.length + k ≤ ts.length := by
  obtain ⟨taken, rfl, -, hk⟩ := h
  rw [List.length_append, Nat.add_comm]
  exact Nat.add_le_add_right hk _

/-- The end is still there. -/
theorem stopped (h : Passed k ts rest) (hts : Stopped ts) : Stopped rest := by
  obtain ⟨taken, rfl, hstop, -⟩ := h
  obtain ⟨front, stop, heq, hkind⟩ := hts
  rcases List.eq_nil_or_concat rest with rfl | ⟨init, last, rfl⟩
  · -- otherwise the end would be among the tokens that are passed
    rw [List.append_nil] at heq
    exact absurd hkind (hstop stop (heq ▸ List.mem_append_right _ List.mem_cons_self))
  · rw [List.concat_eq_append, ← List.append_assoc] at heq
    obtain ⟨-, hlast⟩ := List.append_inj' heq rfl
    obtain rfl := (List.cons.inj hlast).1
    exact ⟨init, last, List.concat_eq_append .., hkind⟩

end Passed

/-! ### Walks and parsers -/

/-- A walk ends, in a place and with a result, if calls may only go deep enough. -/
def Ends {α : Type} (x : Nat → Walk α) (walker : Walker) (result : Except ParseError α) (next : Walker) :
    Prop :=
  ∃ least, ∀ depth, least ≤ depth → (x depth).run.run walker = some (result, next)

namespace Ends

variable {α β : Type} {walker mid next : Walker}

/-- A walk without calls. -/
theorem of_run {x : Walk α} {result : Except ParseError α} (h : x.run.run walker = some (result, next)) :
    Ends (fun _ => x) walker result next :=
  ⟨0, fun _ _ => h⟩

theorem bind {x : Nat → Walk α} {f : Nat → α → Walk β} {a : α} {result : Except ParseError β}
    (hx : Ends x walker (.ok a) mid) (hf : Ends (fun depth => f depth a) mid result next) :
    Ends (fun depth => x depth >>= f depth) walker result next := by
  obtain ⟨first, hx⟩ := hx
  obtain ⟨second, hf⟩ := hf
  refine ⟨max first second, fun depth hdepth => ?_⟩
  rw [run_walk_bind_of_ok (f depth) (hx depth (by omega))]
  exact hf depth (by omega)

theorem bind_error {x : Nat → Walk α} {f : Nat → α → Walk β} {e : ParseError}
    (hx : Ends x walker (.error e) next) :
    Ends (fun depth => x depth >>= f depth) walker (.error e) next := by
  obtain ⟨least, hx⟩ := hx
  exact ⟨least, fun depth hdepth => run_walk_bind_of_error (f depth) (hx depth hdepth)⟩

/-- Calls one level deeper. -/
theorem call {s : Symbol α} {result : Except ParseError α}
    (h : Ends (fun depth => walk s (depth + 1)) walker result next) : Ends (walk s) walker result next := by
  obtain ⟨least, h⟩ := h
  refine ⟨least + 1, fun depth hdepth => ?_⟩
  obtain ⟨below, rfl⟩ := Nat.exists_eq_add_of_le' hdepth
  exact h (below + least) (Nat.le_add_left _ _)

theorem nested {x : Nat → Walk α} {result : Except ParseError α} {ts rest : List Token}
    {nesting loops : Nat} (hroom : ¬ maxNesting ≤ nesting)
    (h : Ends x ⟨ts, nesting + 1, loops⟩ result ⟨rest, nesting + 1, loops⟩) :
    Ends (fun depth => Parser.nested (x depth)) ⟨ts, nesting, loops⟩ result ⟨rest, nesting, loops⟩ := by
  obtain ⟨least, h⟩ := h
  refine ⟨least, fun depth hdepth => ?_⟩
  rw [run_nested, if_neg hroom, h depth hdepth]
  rfl

theorem tooDeep {x : Nat → Walk α} {t : Token} {ts : List Token} {nesting loops : Nat}
    (hroom : maxNesting ≤ nesting) : Ends (fun depth => Parser.nested (x depth))
      ⟨t :: ts, nesting, loops⟩ (.error ⟨.nestingTooDeep, t.position⟩) ⟨t :: ts, nesting, loops⟩ := by
  refine ⟨0, fun depth _ => ?_⟩
  rw [run_nested, if_pos hroom]
  exact run_take_of_error rfl

theorem looped {x : Nat → Walk α} {result : Except ParseError α} {ts rest : List Token}
    {nesting loops : Nat} (h : Ends x ⟨ts, nesting, loops + 1⟩ result ⟨rest, nesting, loops + 1⟩) :
    Ends (fun depth => Parser.looped (x depth)) ⟨ts, nesting, loops⟩ result ⟨rest, nesting, loops⟩ := by
  obtain ⟨least, h⟩ := h
  refine ⟨least, fun depth hdepth => ?_⟩
  rw [run_looped, h depth hdepth]
  rfl

theorem enclosed {x : Nat → Walk α} {result : Except ParseError α} {ts rest : List Token}
    {nesting loops : Nat} (h : Ends x ⟨ts, nesting, 0⟩ result ⟨rest, nesting, 0⟩) :
    Ends (fun depth => Parser.enclosed (x depth)) ⟨ts, nesting, loops⟩ result ⟨rest, nesting, loops⟩ := by
  obtain ⟨least, h⟩ := h
  refine ⟨least, fun depth hdepth => ?_⟩
  rw [run_enclosed, h depth hdepth]
  rfl

/-- A walk ends in one way. -/
theorem unique {x : Nat → Walk α} {result result' : Except ParseError α} {next' : Walker}
    (h : Ends x walker result next) (h' : Ends x walker result' next') :
    result = result' ∧ next = next' := by
  obtain ⟨least, h⟩ := h
  obtain ⟨least', h'⟩ := h'
  have heq := (h (max least least') (by omega)).symm.trans (h' (max least least') (by omega))
  cases heq
  exact ⟨rfl, rfl⟩

end Ends

/-- From some tokens a walk does what a parser does, and takes `k` of them at least if it succeeds. -/
def AgreesOn {α : Type} (ts : List Token) (k nesting loops : Nat) (x : Nat → Walk α) (p : Parser α) :
    Prop :=
  (∃ a rest, Passed k ts rest ∧ p.run ts = .ok (a, rest) ∧
    Ends x ⟨ts, nesting, loops⟩ (.ok a) ⟨rest, nesting, loops⟩) ∨
  ∃ e rest, Passed 0 ts rest ∧ p.run ts = .error e ∧
    Ends x ⟨ts, nesting, loops⟩ (.error e) ⟨rest, nesting, loops⟩

/-- **A walk that does what a parser does.** -/
def Agrees {α : Type} (S : TokenKind → Prop) (n k nesting loops : Nat) (x : Nat → Walk α)
    (p : Parser α) : Prop :=
  ∀ ts, Stopped ts → ts.length ≤ n → S (headKind ts) → AgreesOn ts k nesting loops x p

namespace AgreesOn

variable {α β : Type} {ts mid : List Token} {j k nesting loops : Nat}

theorem mono {x : Nat → Walk α} {p : Parser α} (h : AgreesOn ts k nesting loops x p) (hj : j ≤ k) :
    AgreesOn ts j nesting loops x p := by
  rcases h with ⟨a, rest, hpass, hp, hw⟩ | hfails
  · exact .inl ⟨a, rest, hpass.mono hj, hp, hw⟩
  · exact .inr hfails

/-- Going on after a walk that has passed some tokens. -/
theorem after {x : Nat → Walk α} {p : Parser α} {a : α} {f : Nat → α → Walk β} {g : α → Parser β}
    (hpass : Passed j ts mid) (hp : p.run ts = .ok (a, mid))
    (hw : Ends x ⟨ts, nesting, loops⟩ (.ok a) ⟨mid, nesting, loops⟩)
    (h : AgreesOn mid (k - j) nesting loops (fun depth => f depth a) (g a)) :
    AgreesOn ts k nesting loops (fun depth => x depth >>= f depth) (p >>= g) := by
  rw [AgreesOn, run_bind_of_ok g hp]
  rcases h with ⟨b, rest, hpass', hp', hw'⟩ | ⟨e, rest, hpass', hp', hw'⟩
  · exact .inl ⟨b, rest, (hpass.trans hpass').mono (by omega), hp', hw.bind hw'⟩
  · exact .inr ⟨e, rest, (hpass.trans hpass').mono (Nat.zero_le _), hp', hw.bind hw'⟩

/-- Going on after a step. -/
theorem step {p : Parser α} {a : α} {f : Nat → α → Walk β} {g : α → Parser β} (hpass : Passed j ts mid)
    (hp : p.run ts = .ok (a, mid))
    (h : AgreesOn mid (k - j) nesting loops (fun depth => f depth a) (g a)) :
    AgreesOn ts k nesting loops (fun depth => take p >>= f depth) (p >>= g) :=
  after hpass hp (.of_run (run_take_of_ok hp)) h

/-- How the walk ends determines what the parser does. -/
theorem run_of_walk {x : Nat → Walk α} {p : Parser α} {result : Except ParseError α}
    {rest : List Token} (h : AgreesOn ts k nesting loops x p)
    (hw : Ends x ⟨ts, nesting, loops⟩ result ⟨rest, nesting, loops⟩) :
    p.run ts = result.map fun a => (a, rest) := by
  rcases h with ⟨a, rest', -, hp, hw'⟩ | ⟨e, rest', -, hp, hw'⟩
  · obtain ⟨rfl, hnext⟩ := hw'.unique hw
    cases hnext
    exact hp
  · obtain ⟨rfl, -⟩ := hw'.unique hw
    exact hp

end AgreesOn

namespace Agrees

variable {α β : Type} {S T : TokenKind → Prop} {n m j k nesting loops : Nat}

/-! ### Composition -/

theorem mono {x : Nat → Walk α} {p : Parser α} (h : Agrees S n k nesting loops x p)
    (hS : ∀ kind, T kind → S kind) (hm : m ≤ n) (hj : j ≤ k) : Agrees T m j nesting loops x p :=
  fun ts hts hn hs => (h ts hts (Nat.le_trans hn hm) (hS _ hs)).mono hj

/-- There are no tokens without an end. -/
theorem none {x : Nat → Walk α} {p : Parser α} : Agrees S 0 k nesting loops x p := by
  intro ts hts hn
  obtain ⟨t, rest, rfl⟩ := hts.exists_cons
  exact absurd hn (Nat.not_succ_le_zero _)

theorem pure (a : α) : Agrees S n 0 nesting loops (fun _ => Pure.pure a) (Pure.pure a) :=
  fun ts _ _ _ => .inl ⟨a, ts, .refl ts, rfl, .of_run rfl⟩

theorem throw (e : ParseError) :
    Agrees S n k nesting loops (fun _ => (MonadExcept.throw e : Walk α)) (MonadExcept.throw e) :=
  fun ts _ _ _ => .inr ⟨e, ts, .refl ts, rfl, .of_run rfl⟩

/-- **Walks in sequence.** -/
theorem bind {x : Nat → Walk α} {p : Parser α} {f : Nat → α → Walk β} {g : α → Parser β}
    (hx : Agrees S n j nesting loops x p)
    (hf : ∀ a, Agrees Any (n - j) (k - j) nesting loops (fun depth => f depth a) (g a)) :
    Agrees S n k nesting loops (fun depth => x depth >>= f depth) (p >>= g) := by
  intro ts hts hn hs
  rcases hx ts hts hn hs with ⟨a, mid, hpass, hp, hw⟩ | ⟨e, rest, hpass, hp, hw⟩
  · have hlength := hpass.length
    exact .after hpass hp hw (hf a mid (hpass.stopped hts) (by omega) trivial)
  · exact .inr ⟨e, rest, hpass, run_bind_of_error g hp, hw.bind_error⟩

/-! ### Steps -/

/-- A step over the tokens. -/
theorem take {p : Parser α} (hp : ∀ t ts, (∃ e, p.run (t :: ts) = .error e) ∨
      ∃ a rest, Passed k (t :: ts) rest ∧ p.run (t :: ts) = .ok (a, rest)) :
    Agrees S n k nesting loops (fun _ => Parser.take p) p := by
  intro ts hts _ _
  obtain ⟨t, ts, rfl⟩ := hts.exists_cons
  rcases hp t ts with ⟨e, he⟩ | ⟨a, rest, hpass, ha⟩
  · exact .inr ⟨e, t :: ts, .refl _, he, .of_run (run_take_of_error he)⟩
  · exact .inl ⟨a, rest, hpass, ha, .of_run (run_take_of_ok ha)⟩

theorem failHere (cause : ParseError.Cause) :
    Agrees S n k nesting loops (fun _ => (Parser.take (Parser.failHere cause) : Walk α))
      (Parser.failHere cause) :=
  take fun _ _ => .inl ⟨_, rfl⟩

theorem unexpected :
    Agrees S n k nesting loops (fun _ => (Parser.take Parser.unexpected : Walk α)) Parser.unexpected :=
  take fun _ _ => .inl ⟨_, rfl⟩

/-- A look at the next tokens. -/
theorem look {p : Parser α} (hp : ∀ t ts, ∃ a, p.run (t :: ts) = .ok (a, t :: ts)) :
    Agrees S n 0 nesting loops (fun _ => Parser.take p) p :=
  take fun t ts => .inr ((hp t ts).imp fun _ h => ⟨t :: ts, .refl _, h⟩)

theorem peek : Agrees S n 0 nesting loops (fun _ => Parser.take Parser.peek) Parser.peek :=
  look fun _ _ => ⟨_, rfl⟩

theorem atSign (sign : Punctuator) :
    Agrees S n 0 nesting loops (fun _ => Parser.take (Parser.atSign sign)) (Parser.atSign sign) :=
  look fun _ _ => ⟨_, rfl⟩

theorem atStop : Agrees S n 0 nesting loops (fun _ => Parser.take Parser.atStop) Parser.atStop :=
  look fun _ _ => ⟨_, rfl⟩

theorem atStatementEnd :
    Agrees S n 0 nesting loops (fun _ => Parser.take Parser.atStatementEnd) Parser.atStatementEnd :=
  look fun _ _ => ⟨_, rfl⟩

/-- A look at the kind of the next token. -/
theorem peekKind {f : Nat → TokenKind → Walk β} {g : TokenKind → Parser β}
    (hf : ∀ kind, Agrees (· = kind) n k nesting loops (fun depth => f depth kind) (g kind)) :
    Agrees S n k nesting loops (fun depth => Parser.take Parser.peekKind >>= f depth)
      (Parser.peekKind >>= g) := by
  intro ts hts hn _
  obtain ⟨t, ts, rfl⟩ := hts.exists_cons
  exact .step (.refl _) (run_peekKind t ts) (hf t.kind (t :: ts) hts hn rfl)

/-- Taking the next token.  The end is not taken. -/
theorem advance {f : Nat → Token → Walk β} {g : Token → Parser β}
    (hstop : ∀ t, t.kind = .stop → S .stop → Agrees S n k nesting loops (fun depth => f depth t) (g t))
    (hf : ∀ t, t.kind ≠ .stop → Agrees Any (n - 1) (k - 1) nesting loops (fun depth => f depth t) (g t)) :
    Agrees S n k nesting loops (fun depth => Parser.take Parser.advance >>= f depth)
      (Parser.advance >>= g) := by
  intro ts hts hn hs
  obtain ⟨t, ts, rfl⟩ := hts.exists_cons
  by_cases ht : t.kind = .stop
  · exact .step (.refl _) (run_advance_stop ht ts) (hstop t ht (ht ▸ hs) (t :: ts) hts hn hs)
  · have hone := Passed.one ht ts
    have hlength := hone.length
    have hmore := hf t ht ts (hone.stopped hts) (by omega) trivial
    exact .step hone (run_advance (TokenKind.isStop_eq_false ht) ts) hmore

/-- Taking a token that is not looked at again, and that is not the end if it has to count. -/
theorem skip {x : Nat → Walk β} {p : Parser β} (hj : j ≤ 1) (hstop : S .stop → j = 0)
    (h : Agrees Any (n - j) (k - j) nesting loops x p) :
    Agrees S n k nesting loops (fun depth => Parser.take Parser.advance >>= fun _ => x depth)
      (Parser.advance >>= fun _ => p) := by
  refine advance (fun t _ hs => ?_) fun t _ => h.mono (fun _ _ => trivial) (by omega) (by omega)
  obtain rfl := hstop hs
  exact h.mono (fun _ _ => trivial) (Nat.le_refl _) (Nat.le_refl _)

/-- Taking a token that need not count. -/
theorem pass {x : Nat → Walk β} {p : Parser β} (h : Agrees Any n k nesting loops x p) :
    Agrees S n k nesting loops (fun depth => Parser.take Parser.advance >>= fun _ => x depth)
      (Parser.advance >>= fun _ => p) :=
  skip (Nat.zero_le _) (fun _ => rfl) h

theorem ne_stop_of_isSign {t : Token} {sign : Punctuator} (h : t.kind.isSign sign = true) :
    t.kind ≠ .stop := by
  rw [eq_sign_of_isSign h]
  nofun

theorem ne_stop_of_name {t : Token} {word : String} (h : t.kind = .name word) : t.kind ≠ .stop := by
  rw [h]
  nofun

/-- Taking a sign if it is next. -/
theorem acceptSign {f : Nat → Bool → Walk β} {g : Bool → Parser β} {sign : Punctuator}
    (htrue : Agrees Any (n - 1) (k - 1) nesting loops (fun depth => f depth true) (g true))
    (hfalse : Agrees Any n k nesting loops (fun depth => f depth false) (g false)) :
    Agrees S n k nesting loops (fun depth => Parser.take (Parser.acceptSign sign) >>= f depth)
      (Parser.acceptSign sign >>= g) := by
  intro ts hts hn hs
  obtain ⟨t, ts, rfl⟩ := hts.exists_cons
  cases hsign : t.kind.isSign sign with
  | true =>
      have hone := Passed.one (ne_stop_of_isSign hsign) ts
      have hlength := hone.length
      have hmore := htrue ts (hone.stopped hts) (by omega) trivial
      exact .step hone (run_acceptSign_true hsign ts) hmore
  | false => exact .step (.refl _) (run_acceptSign_false hsign ts) (hfalse (t :: ts) hts hn trivial)

theorem expectSign (sign : Punctuator) :
    Agrees S n 1 nesting loops (fun _ => Parser.take (Parser.expectSign sign)) (Parser.expectSign sign) := by
  refine take fun t ts => ?_
  cases hsign : t.kind.isSign sign with
  | true => exact .inr ⟨(), ts, .one (ne_stop_of_isSign hsign) ts, run_expectSign_true hsign ts⟩
  | false => exact .inl ⟨_, run_expectSign_false hsign ts⟩

theorem acceptKeyword (word : Keyword) :
    Agrees S n 0 nesting loops (fun _ => Parser.take (Parser.acceptKeyword word))
      (Parser.acceptKeyword word) := by
  refine take fun t ts => .inr ?_
  rw [acceptKeyword_eq]
  cases hword : t.kind.isKeyword word with
  | true =>
      have ht : t.kind ≠ .stop := fun h => by
        rw [h] at hword
        cases hword
      have hone := Passed.one ht ts
      exact ⟨true, ts, hone.mono (Nat.zero_le _), run_accept_true rfl hword ts⟩
  | false => exact ⟨false, t :: ts, .refl _, run_accept_false hword ts⟩

theorem acceptName :
    Agrees S n 0 nesting loops (fun _ => Parser.take Parser.acceptName) Parser.acceptName := by
  refine take fun t ts => .inr ?_
  by_cases hname : ∃ word, t.kind = .name word
  · obtain ⟨word, hk⟩ := hname
    have hone := Passed.one (ne_stop_of_name hk) ts
    exact ⟨some word, ts, hone.mono (Nat.zero_le _), run_acceptName_some hk ts⟩
  · exact ⟨.none, t :: ts, .refl _, run_acceptName_none (fun word hk => hname ⟨word, hk⟩) ts⟩

theorem expectName :
    Agrees S n 1 nesting loops (fun _ => Parser.take Parser.expectName) Parser.expectName := by
  refine take fun t ts => ?_
  by_cases hname : ∃ word, t.kind = .name word
  · obtain ⟨word, hk⟩ := hname
    have hone := Passed.one (ne_stop_of_name hk) ts
    exact .inr ⟨word, ts, hone, run_bind_of_ok _ (run_acceptName_some hk ts)⟩
  · exact .inl ⟨_, run_bind_of_ok _ (run_acceptName_none (fun word hk => hname ⟨word, hk⟩) ts)⟩

theorem endStatement :
    Agrees S n 0 nesting loops (fun _ => Parser.take Parser.endStatement) Parser.endStatement := by
  refine take fun t ts => ?_
  cases hsign : t.kind.isSign .semicolon with
  | true =>
      have hone := Passed.one (ne_stop_of_isSign hsign) ts
      exact .inr ⟨(), ts, hone.mono (Nat.zero_le _), run_bind_of_ok _ (run_acceptSign_true hsign ts)⟩
  | false =>
      have hends : Parser.atStatementEnd.run (t :: ts) = .ok
          (t.kind.isSign .closeBrace || t.kind.isStop || t.newlineBefore, t :: ts) := rfl
      rw [Parser.endStatement, run_bind_of_ok _ (run_acceptSign_false hsign ts)]
      simp only [Bool.false_eq_true, if_false]
      rw [run_bind_of_ok _ hends]
      cases t.kind.isSign .closeBrace || t.kind.isStop || t.newlineBefore with
      | true => exact .inr ⟨(), t :: ts, .refl _, rfl⟩
      | false => exact .inl ⟨_, rfl⟩

/-- A loop variable and the word after it are before the end. -/
theorem loopBinding :
    Agrees S n 0 nesting loops (fun _ => Parser.take Parser.loopBinding) Parser.loopBinding := by
  refine take fun t ts => .inr ?_
  rw [Ending.run_loopBinding]
  cases hfound : Ending.loopName? (if (declKind t.kind).isSome then ts else t :: ts) with
  | none => exact ⟨.none, t :: ts, .refl _, rfl⟩
  | some found =>
      obtain ⟨word, loop, rest⟩ := found
      refine ⟨_, rest, ?_, rfl⟩
      obtain ⟨u, v, heq, hu, hv⟩ := Ending.of_loopName? hfound
      have hv' : v.kind ≠ .stop := TokenKind.ne_stop_of_some hv rfl
      have htwo : Passed 0 (u :: v :: rest) rest :=
        ((Passed.one (ne_stop_of_name hu) _).trans (Passed.one hv' rest)).mono (Nat.zero_le _)
      cases hd : declKind t.kind with
      | none =>
          rw [hd] at heq
          rw [show t :: ts = u :: v :: rest from heq]
          exact htwo
      | some declared =>
          rw [hd] at heq
          have ht : t.kind ≠ .stop := TokenKind.ne_stop_of_some hd rfl
          rw [show ts = u :: v :: rest from heq]
          exact ((Passed.one ht _).trans htwo).mono (Nat.zero_le _)

/-- Nothing more has to be taken. -/
theorem left {x : Nat → Walk α} {p : Parser α} (h : Agrees S n 0 nesting loops x p) :
    Agrees S n (k - k) nesting loops x p :=
  h.mono (fun _ h => h) (Nat.le_refl _) (Nat.le_of_eq (Nat.sub_self k))

/-- A look at where the walk is. -/
theorem here {f : Nat → Walker → Walk α} {p : Parser α}
    (hf : ∀ ts, Agrees S n k nesting loops (fun depth => f depth ⟨ts, nesting, loops⟩) p) :
    Agrees S n k nesting loops (fun depth => get >>= f depth) p :=
  fun ts hts hn hs => hf ts ts hts hn hs

/-! ### Calls -/

theorem call {s : Symbol α} {p : Parser α}
    (h : Agrees S n k nesting loops (fun depth => walk s (depth + 1)) p) :
    Agrees S n k nesting loops (walk s) p := by
  intro ts hts hn hs
  rcases h ts hts hn hs with ⟨a, rest, hpass, hp, hw⟩ | ⟨e, rest, hpass, hp, hw⟩
  · exact .inl ⟨a, rest, hpass, hp, hw.call⟩
  · exact .inr ⟨e, rest, hpass, hp, hw.call⟩

/-- A level of nesting is closed again, whether the walk inside succeeds or not. -/
theorem nested {s : Symbol α} {p : Parser α}
    (hdeep : maxNesting ≤ nesting → p = Parser.failHere .nestingTooDeep)
    (h : nesting < maxNesting → Agrees S n k (nesting + 1) loops (walk s) p) :
    Agrees S n k nesting loops (walk (.nested s)) p := by
  refine .call fun ts hts hn hs => ?_
  by_cases hroom : maxNesting ≤ nesting
  · obtain ⟨t, rest, rfl⟩ := hts.exists_cons
    exact .inr ⟨_, t :: rest, .refl _, by rw [hdeep hroom]; rfl, .tooDeep hroom⟩
  · rcases h (Nat.lt_of_not_le hroom) ts hts hn hs with
      ⟨a, rest, hpass, hp, hw⟩ | ⟨e, rest, hpass, hp, hw⟩
    · exact .inl ⟨a, rest, hpass, hp, hw.nested hroom⟩
    · exact .inr ⟨e, rest, hpass, hp, hw.nested hroom⟩

theorem looped {s : Symbol α} {p : Parser α} (h : Agrees S n k nesting (loops + 1) (walk s) p) :
    Agrees S n k nesting loops (walk (.looped s)) p := by
  refine .call fun ts hts hn hs => ?_
  rcases h ts hts hn hs with ⟨a, rest, hpass, hp, hw⟩ | ⟨e, rest, hpass, hp, hw⟩
  · exact .inl ⟨a, rest, hpass, hp, hw.looped⟩
  · exact .inr ⟨e, rest, hpass, hp, hw.looped⟩

theorem enclosed {s : Symbol α} {p : Parser α} (h : Agrees S n k nesting 0 (walk s) p) :
    Agrees S n k nesting loops (walk (.enclosed s)) p := by
  refine .call fun ts hts hn hs => ?_
  rcases h ts hts hn hs with ⟨a, rest, hpass, hp, hw⟩ | ⟨e, rest, hpass, hp, hw⟩
  · exact .inl ⟨a, rest, hpass, hp, hw.enclosed⟩
  · exact .inr ⟨e, rest, hpass, hp, hw.enclosed⟩

end Agrees

/-! ### Productions -/

/-- **Levels that a walk agrees with**, on at most `n` tokens. -/
structure LevelAgrees (n nesting : Nat) (level : Level) : Prop where
  statement : ∀ loops, Agrees Any n 1 nesting loops (walk (.nested .statement))
    (level.statement (decide (0 < loops)))
  assignment : ∀ loops, Agrees Any n 1 nesting loops (walk (.nested .assignment)) level.assignment
  unary : ∀ loops, Agrees Any n 1 nesting loops (walk (.nested .unary)) level.unary

namespace LevelAgrees

variable {S : TokenKind → Prop} {n m k bound nesting loops : Nat} {level : Level}

theorem body (h : LevelAgrees n nesting level) (hm : m ≤ n) :
    Agrees S m 1 nesting loops (walk (.nested .statement)) (level.statement (decide (0 < loops))) :=
  (h.statement loops).mono (fun _ _ => trivial) hm (Nat.le_refl _)

theorem expression (h : LevelAgrees n nesting level) (hm : m ≤ n) :
    Agrees S m 1 nesting loops (walk (.nested .assignment)) level.assignment :=
  (h.assignment loops).mono (fun _ _ => trivial) hm (Nat.le_refl _)

theorem operand (h : LevelAgrees n nesting level) (hm : m ≤ n) :
    Agrees S m 1 nesting loops (walk (.nested .unary)) level.unary :=
  (h.unary loops).mono (fun _ _ => trivial) hm (Nat.le_refl _)

theorem statements (h : LevelAgrees n nesting level) (hm : m ≤ n) (hb : m ≤ bound) :
    Agrees S m 0 nesting loops (walk .statements)
      (Parser.statements level (decide (0 < loops)) bound) := by
  induction bound generalizing m S with
  | zero =>
      obtain rfl := Nat.le_zero.mp hb
      exact .none
  | succ bound ih =>
      refine .call ?_
      refine (Agrees.atSign _).bind fun closed => Agrees.atStop.bind fun done => ?_
      cases closed || done with
      | true => exact .pure _
      | false => exact (h.body (by omega)).bind fun _ => (ih (by omega) (by omega)).bind fun _ => .pure _

theorem braced (h : LevelAgrees n nesting level) (hm : m ≤ n) (hb : n ≤ bound) :
    Agrees S m 1 nesting loops (walk .braced) (Parser.braced level (decide (0 < loops)) bound) := by
  refine .call ?_
  exact (Agrees.expectSign _).bind fun _ => (h.statements (by omega) (by omega)).bind fun _ =>
    (Agrees.expectSign _).bind fun _ => .pure _

/-! ### Functions, lists and objects -/

theorem parameter : Agrees S m 1 nesting loops (walk .parameter) Parser.expectName := by
  refine .call ?_
  exact Agrees.expectName

theorem parameters (hb : m ≤ bound) :
    Agrees S m 0 nesting loops (walk .parameters) (Parser.parameters bound) := by
  induction bound generalizing m S with
  | zero =>
      obtain rfl := Nat.le_zero.mp hb
      exact .none
  | succ bound ih =>
      refine .call ?_
      refine (Agrees.atSign _).bind fun closed => ?_
      cases closed with
      | true => exact .pure _
      | false =>
          refine .acceptSign (parameter.bind fun _ => .pure _) ?_
          refine parameter.bind fun first => .acceptSign ?_ (.pure _)
          exact (ih (by omega)).bind fun _ => .pure _

theorem definition (h : LevelAgrees n nesting level) (hm : m ≤ n) (hb : n ≤ bound)
    (name : Option String) : Agrees S m 1 nesting loops (walk (.definition name))
      (definitionRest level bound name) := by
  refine .call ?_
  exact (Agrees.expectSign _).bind fun _ => (parameters (by omega)).bind fun _ =>
    (Agrees.expectSign _).bind fun _ => (Agrees.enclosed (h.braced (by omega) hb)).bind fun _ =>
    .pure _

theorem items (h : LevelAgrees n nesting level) (close : Punctuator) (hm : m ≤ n) (hb : m ≤ bound) :
    Agrees S m 0 nesting loops (walk (.items close)) (Parser.items level close bound) := by
  induction bound generalizing m S with
  | zero =>
      obtain rfl := Nat.le_zero.mp hb
      exact .none
  | succ bound ih =>
      refine .call ?_
      refine (Agrees.atSign _).bind fun closed => ?_
      cases closed with
      | true => exact .pure _
      | false =>
          refine (h.expression (by omega)).bind fun _ => .acceptSign ?_ (.pure _)
          exact (ih (by omega) (by omega)).bind fun _ => .pure _

theorem itemsClosed (h : LevelAgrees n nesting level) (close : Punctuator) (hm : m ≤ n) (hb : n ≤ bound) :
    Agrees S m 1 nesting loops (walk (.itemsClosed close)) (Parser.itemsClosed level bound close) := by
  refine .call ?_
  exact (h.items close hm (by omega)).bind fun _ => (Agrees.expectSign _).bind fun _ => .pure _

theorem field (h : LevelAgrees n nesting level) (hm : m ≤ n) :
    Agrees S m 1 nesting loops (walk .field) (Parser.field level) := by
  refine .call ?_
  refine .peekKind fun kind => ?_
  cases hkey : fieldKey kind with
  | none => exact .unexpected
  | some found =>
      obtain ⟨key, shorthand⟩ := found
      have hstop : kind ≠ .stop := TokenKind.ne_stop_of_some hkey rfl
      refine .skip (j := 1) (Nat.le_refl _) (fun h => absurd h.symm hstop) (.acceptSign ?_ ?_)
      · exact (h.expression (by omega)).bind fun _ => .pure _
      · cases shorthand with
        | true => exact .pure _
        | false => exact .unexpected

theorem fields (h : LevelAgrees n nesting level) (hm : m ≤ n) (hb : m ≤ bound) :
    Agrees S m 0 nesting loops (walk .fields) (Parser.fields level bound) := by
  induction bound generalizing m S with
  | zero =>
      obtain rfl := Nat.le_zero.mp hb
      exact .none
  | succ bound ih =>
      refine .call ?_
      refine (Agrees.atSign _).bind fun closed => ?_
      cases closed with
      | true => exact .pure _
      | false =>
          refine (h.field (by omega)).bind fun _ => .acceptSign ?_ (.pure _)
          exact (ih (by omega) (by omega)).bind fun _ => .pure _

/-! ### Expressions -/

theorem primary (h : LevelAgrees n nesting level) (hm : m ≤ n) (hb : n ≤ bound) :
    Agrees S m 1 nesting loops (walk .primary) (Parser.primary level bound) := by
  refine .call ?_
  refine .advance (fun t ht _ => ?_) fun t ht => ?_
  · rw [ht]
    exact .throw _
  · cases t.kind with
    | number value => exact .pure _
    | string value => exact .pure _
    | name word => exact .pure _
    | stop => exact .throw _
    | keyword word =>
        cases word with
        | «true» => exact .pure _
        | «false» => exact .pure _
        | null => exact .pure _
        | function =>
            exact Agrees.acceptName.bind fun name => (h.definition (by omega) hb name).bind fun _ => .pure _
        | _ => exact .throw _
    | sign s =>
        cases s with
        | openParen =>
            exact (h.expression (by omega)).bind fun _ => (Agrees.expectSign _).bind fun _ => .pure _
        | openBracket => exact (h.itemsClosed _ (by omega) hb).bind fun _ => .pure _
        | openBrace =>
            exact (h.fields (by omega) (by omega)).bind fun _ => (Agrees.expectSign _).bind fun _ => .pure _
        | _ => exact .throw _

theorem suffixes {rounds : Nat} (h : LevelAgrees n nesting level) (hm : m ≤ n) (hb : n ≤ bound)
    (hr : m ≤ rounds) (e : Expr) : Agrees S m 0 nesting loops (walk (.suffixes e))
      (Parser.suffixes level bound rounds e) := by
  induction rounds generalizing m S e with
  | zero =>
      obtain rfl := Nat.le_zero.mp hr
      exact .none
  | succ rounds ih =>
      refine .call ?_
      refine .acceptSign (.peekKind fun kind => ?_) (.acceptSign ?_ (.acceptSign ?_ (.pure e)))
      · cases memberName kind with
        | none => exact .unexpected
        | some key => exact .pass (ih (by omega) (by omega) _)
      · exact (h.expression (by omega)).bind fun _ => (Agrees.expectSign _).bind fun _ =>
          ih (by omega) (by omega) _
      · exact (h.itemsClosed _ (by omega) hb).bind fun _ => ih (by omega) (by omega) _

theorem postfixed (h : LevelAgrees n nesting level) (hm : m ≤ n) (hb : n ≤ bound) :
    Agrees S m 1 nesting loops (walk .postfixed) (Parser.postfixed level bound) := by
  refine .call ?_
  refine (h.primary hm hb).bind fun first =>
    (h.suffixes (by omega) hb (by omega) first).bind fun e => Agrees.peek.bind fun t => ?_
  dsimp only
  cases (t.kind.isSign .increment || t.kind.isSign .decrement) && !t.newlineBefore with
  | false => exact .pure _
  | true =>
      cases e.isAssignable with
      | true => exact .pass (.pure _)
      | false => exact .failHere _

theorem unaryBody (h : LevelAgrees n nesting level) (hm : m ≤ n) (hb : n ≤ bound) :
    Agrees S m 1 nesting loops (walk .unary) (Parser.unaryBody level bound) := by
  refine .call ?_
  refine .peekKind fun kind => ?_
  cases unaryOp kind with
  | some op => exact .pass ((h.operand hm).bind fun _ => .pure _)
  | none =>
      dsimp only
      cases kind.isSign .increment || kind.isSign .decrement with
      | false => exact h.postfixed hm hb
      | true =>
          refine .pass ((h.operand hm).bind fun target => ?_)
          cases target.isAssignable with
          | true => exact .pure _
          | false => exact .failHere _

/-- Operators of one strength, if their operands are read alike. -/
theorem chain {p : Parser Expr} {rounds : Nat} (count : Nat)
    (hp : ∀ {j}, j ≤ n → Agrees Any j 1 nesting loops (walk (.infixed count)) p) (hm : m ≤ n)
    (hr : m ≤ rounds) (left : Expr) : Agrees S m 0 nesting loops (walk (.chain count left))
      (Parser.chain p (7 - count) rounds left) := by
  induction rounds generalizing m S left with
  | zero =>
      obtain rfl := Nat.le_zero.mp hr
      exact .none
  | succ rounds ih =>
      refine .call ?_
      refine .peekKind fun kind => ?_
      cases infixOfStrength (7 - count) kind with
      | none => exact .pure _
      | some op => exact .pass ((hp hm).bind fun _ => ih (by omega) (by omega) _)

theorem infixed (h : LevelAgrees n nesting level) (hm : m ≤ n) (hb : n ≤ bound) (count : Nat) :
    Agrees S m 1 nesting loops (walk (.infixed count)) (Parser.infixed level bound count) := by
  induction count generalizing m S with
  | zero =>
      refine .call ?_
      exact h.operand hm
  | succ count ih =>
      refine .call ?_
      exact (ih hm).bind fun first => chain count (fun hj => ih hj) (by omega) (by omega) first

theorem conditional (h : LevelAgrees n nesting level) (hm : m ≤ n) (hb : n ≤ bound) :
    Agrees S m 1 nesting loops (walk .conditional) (Parser.conditional level bound) := by
  refine .call ?_
  refine (h.infixed hm hb 7).bind fun _ => .acceptSign ?_ (.pure _)
  exact (h.expression (by omega)).bind fun _ => (Agrees.expectSign _).bind fun _ =>
    (h.expression (by omega)).bind fun _ => .pure _

theorem assignmentBody (h : LevelAgrees n nesting level) (hm : m ≤ n) (hb : n ≤ bound) :
    Agrees S m 1 nesting loops (walk .assignment) (Parser.assignmentBody level bound) := by
  refine .call ?_
  refine (h.conditional hm hb).bind fun left => .peekKind fun kind => ?_
  cases assignOp kind with
  | none => exact .pure _
  | some op =>
      cases left.isAssignable with
      | true => exact .pass ((h.expression (by omega)).bind fun _ => .pure _)
      | false => exact .failHere _

/-! ### Statements -/

theorem binding (h : LevelAgrees n nesting level) (hm : m ≤ n) (kind : DeclKind) :
    Agrees S m 1 nesting loops (walk (.binding kind)) (Parser.binding level kind) := by
  refine .call ?_
  refine Agrees.expectName.bind fun _ => .acceptSign ?_ ?_
  · exact (h.expression (by omega)).bind fun _ => .pure _
  · cases kind with
    | const => exact .failHere _
    | _ => exact .pure _

theorem bindings (h : LevelAgrees n nesting level) (hm : m ≤ n) (hb : m ≤ bound) (kind : DeclKind) :
    Agrees S m 1 nesting loops (walk (.bindings kind)) (Parser.bindings level kind bound) := by
  induction bound generalizing m S with
  | zero =>
      obtain rfl := Nat.le_zero.mp hb
      exact .none
  | succ bound ih =>
      refine .call ?_
      refine (h.binding hm kind).bind fun _ => .acceptSign ?_ (.pure _)
      exact (ih (by omega) (by omega)).bind fun _ => .pure _

theorem branchBody (h : LevelAgrees n nesting level) (hm : m ≤ n) :
    Agrees S m 1 nesting loops (walk .branch) (Parser.branchBody level (decide (0 < loops))) := by
  refine .call ?_
  refine .pass ((Agrees.expectSign _).bind fun _ => (h.expression (by omega)).bind fun _ =>
    (Agrees.expectSign _).bind fun _ => (h.body (by omega)).bind fun _ =>
    (Agrees.acceptKeyword _).bind fun hasElse => ?_)
  cases hasElse with
  | true => exact (h.body (by omega)).bind fun _ => .pure _
  | false => exact .pure _

/-- The body of a loop. -/
theorem round (h : LevelAgrees n nesting level) (hm : m ≤ n) :
    Agrees S m 1 nesting loops (walk (.looped (.nested .statement))) (level.statement true) := by
  have hbody : Agrees S m 1 nesting (loops + 1) (walk (.nested .statement))
      (level.statement (decide (0 < loops + 1))) := h.body hm
  rw [decide_eq_true (Nat.succ_pos loops)] at hbody
  exact .looped hbody

theorem whileBody (h : LevelAgrees n nesting level) (hm : m ≤ n) :
    Agrees S m 1 nesting loops (walk .whileLoop) (Parser.whileBody level) := by
  refine .call ?_
  exact .pass ((Agrees.expectSign _).bind fun _ => (h.expression (by omega)).bind fun _ =>
    (Agrees.expectSign _).bind fun _ => (h.round (by omega)).bind fun _ => .pure _)

theorem loopInit (h : LevelAgrees n nesting level) (hm : m ≤ n) (hb : n ≤ bound) :
    Agrees S m 0 nesting loops (walk .loopInit) (Parser.loopInit level bound) := by
  refine .call ?_
  refine .peekKind fun kind => ?_
  cases kind.isSign .semicolon with
  | true => exact .pure _
  | false =>
      cases declKind kind with
      | none => exact (h.expression hm).bind fun _ => .pure _
      | some declared => exact .pass ((h.bindings hm (by omega) declared).bind fun _ => .pure _)

theorem unlessSign (h : LevelAgrees n nesting level) (hm : m ≤ n) (sign : Punctuator) :
    Agrees S m 0 nesting loops (walk (.unlessSign sign)) (Parser.unlessSign level sign) := by
  refine .call ?_
  refine (Agrees.atSign _).bind fun absent => ?_
  cases absent with
  | true => exact .pure _
  | false => exact (h.expression (by omega)).bind fun _ => .pure _

theorem forBody (h : LevelAgrees n nesting level) (hm : m ≤ n) (hb : n ≤ bound) :
    Agrees S m 1 nesting loops (walk .forLoop) (Parser.forBody level bound) := by
  refine .call ?_
  refine .pass ((Agrees.expectSign _).bind fun _ => Agrees.loopBinding.bind fun header => ?_)
  cases header with
  | some found =>
      obtain ⟨target, word⟩ := found
      refine (h.expression (by omega)).bind fun _ => (Agrees.expectSign _).bind fun _ =>
        (h.round (by omega)).bind fun _ => ?_
      cases word with
      | «in» => exact .pure _
      | of => exact .pure _
  | none =>
      exact (h.loopInit (by omega) hb).bind fun _ => (Agrees.expectSign _).bind fun _ =>
        (h.unlessSign (by omega) _).bind fun _ => (Agrees.expectSign _).bind fun _ =>
        (h.unlessSign (by omega) _).bind fun _ => (Agrees.expectSign _).bind fun _ =>
        (h.round (by omega)).bind fun _ => .pure _

/-- A jump takes its keyword, if there is one. -/
theorem jump (hk : k ≤ 1) (hstop : S .stop → k = 0) (cause : ParseError.Cause) (stmt : Stmt) :
    Agrees S m k nesting loops (walk (.jump cause stmt))
      (Parser.jump (decide (0 < loops)) cause stmt) := by
  refine .call ?_
  refine .here fun ts => ?_
  cases loops with
  | zero => exact .failHere _
  | succ loops => exact .skip hk hstop (.left (Agrees.endStatement.bind fun _ => .pure _))

/-- A return takes its keyword, if there is one. -/
theorem returnBody (h : LevelAgrees n nesting level) (hm : m ≤ n) (hk : k ≤ 1)
    (hstop : S .stop → k = 0) :
    Agrees S m k nesting loops (walk .returned) (Parser.returnBody level) := by
  refine .call ?_
  refine .skip hk hstop (.left ?_)
  refine (Agrees.atSign _).bind fun semicolon => Agrees.atStatementEnd.bind fun ends => ?_
  cases semicolon || ends with
  | true => exact (Agrees.pure _).bind fun _ => Agrees.endStatement.bind fun _ => .pure _
  | false =>
      exact (h.expression (by omega)).bind fun _ => (Agrees.pure _).bind fun _ =>
        Agrees.endStatement.bind fun _ => .pure _

theorem functionBody (h : LevelAgrees n nesting level) (hm : m ≤ n) (hb : n ≤ bound) :
    Agrees S m 1 nesting loops (walk .function) (Parser.functionBody level bound) := by
  refine .call ?_
  refine .pass (Agrees.acceptName.bind fun name? => ?_)
  cases name? with
  | none => exact .failHere _
  | some name => exact (h.definition (by omega) hb _).bind fun _ => .pure _

/-- A statement that no keyword or sign of its own begins. -/
theorem otherStatement (h : LevelAgrees n nesting level) (hm : m ≤ n) (hb : n ≤ bound)
    (kind : TokenKind) : Agrees (· = kind) m 1 nesting loops
      (fun depth => match declKind kind with
        | some declared => do
          let _ ← take advance
          let all ← walk (.bindings declared) depth
          take Parser.endStatement
          pure (Stmt.declare declared all)
        | none => do
          let e ← walk (.nested .assignment) depth
          take Parser.endStatement
          pure (Stmt.expr e))
      (match declKind kind with
        | some declared => do
          let _ ← advance
          let all ← Parser.bindings level declared bound
          Parser.endStatement
          pure (Stmt.declare declared all)
        | none => do
          let e ← level.assignment
          Parser.endStatement
          pure (Stmt.expr e)) := by
  cases declKind kind with
  | some declared =>
      exact .pass ((h.bindings hm (by omega) declared).bind fun _ =>
        Agrees.endStatement.bind fun _ => .pure _)
  | none => exact (h.expression hm).bind fun _ => Agrees.endStatement.bind fun _ => .pure _

theorem statementBody (h : LevelAgrees n nesting level) (hm : m ≤ n) (hb : n ≤ bound) :
    Agrees S m 1 nesting loops (walk .statement)
      (Parser.statementBody level bound (decide (0 < loops))) := by
  refine .call ?_
  refine .peekKind fun kind => ?_
  have hstop : ∀ word, TokenKind.stop ≠ .keyword word := fun _ h => (by cases h)
  cases kind with
  | sign s =>
      cases s with
      | openBrace => exact (h.braced hm hb).bind fun _ => .pure _
      | semicolon => exact .skip (j := 1) (Nat.le_refl _) (fun h => (by cases h)) (.pure _)
      | _ => exact h.otherStatement hm hb _
  | keyword word =>
      cases word with
      | «if» => exact h.branchBody hm
      | «for» => exact h.forBody hm hb
      | «while» => exact h.whileBody hm
      | «break» => exact jump (Nat.le_refl _) (fun h => absurd h (hstop _)) _ _
      | «continue» => exact jump (Nat.le_refl _) (fun h => absurd h (hstop _)) _ _
      | «return» => exact h.returnBody hm (Nat.le_refl _) fun h => absurd h (hstop _)
      | function => exact h.functionBody hm hb
      | _ => exact h.otherStatement hm hb _
  | _ => exact h.otherStatement hm hb _

end LevelAgrees

/-- **A walk agrees with all levels.** -/
theorem levels_agree {n bound nesting room : Nat} (hb : n ≤ bound) (hroom : maxNesting - nesting = room) :
    LevelAgrees n nesting (levels bound room) := by
  induction room generalizing nesting with
  | zero =>
      have hdeep : ¬ nesting < maxNesting := Nat.not_lt_of_le (Nat.le_of_sub_eq_zero hroom)
      exact
        { statement := fun loops => .nested (fun _ => rfl) fun h => absurd h hdeep
          assignment := fun loops => .nested (fun _ => rfl) fun h => absurd h hdeep
          unary := fun loops => .nested (fun _ => rfl) fun h => absurd h hdeep }
  | succ room ih =>
      have hdeep : ¬ maxNesting ≤ nesting := fun h => by omega
      have below : LevelAgrees n (nesting + 1) (levels bound room) := ih (by omega)
      exact
        { statement := fun loops => .nested (fun h => absurd h hdeep) fun _ =>
            below.statementBody (Nat.le_refl _) hb
          assignment := fun loops => .nested (fun h => absurd h hdeep) fun _ =>
            below.assignmentBody (Nat.le_refl _) hb
          unary := fun loops => .nested (fun h => absurd h hdeep) fun _ =>
            below.unaryBody (Nat.le_refl _) hb }

/-- **A walk agrees with the parser** at each place of the grammar. -/
theorem Symbol.agrees {α : Type} (s : Symbol α) {n bound : Nat} (hb : n ≤ bound) (nesting loops : Nat) :
    Agrees Any n s.least nesting loops (walk s) (s.parser bound nesting loops) := by
  have h : ∀ nesting, LevelAgrees n nesting (levels bound (maxNesting - nesting)) :=
    fun _ => levels_agree hb rfl
  have hn : n ≤ n := Nat.le_refl n
  induction s generalizing nesting loops with
  | nested inner ih =>
      refine .nested (fun hdeep => ?_) fun hroom => ?_
      · rw [parser, if_pos hdeep]
      · rw [parser, if_neg (Nat.not_le_of_lt hroom)]
        exact ih (nesting + 1) loops
  | looped inner ih => exact .looped (ih nesting (loops + 1))
  | enclosed inner ih => exact .enclosed (ih nesting 0)
  | statements => exact (h nesting).statements hn hb
  | braced => exact (h nesting).braced hn hb
  | statement => exact (h nesting).statementBody hn hb
  | bindings kind => exact (h nesting).bindings hn hb kind
  | binding kind => exact (h nesting).binding hn kind
  | branch => exact (h nesting).branchBody hn
  | forLoop => exact (h nesting).forBody hn hb
  | loopInit => exact (h nesting).loopInit hn hb
  | unlessSign sign => exact (h nesting).unlessSign hn sign
  | whileLoop => exact (h nesting).whileBody hn
  | jump cause stmt => exact LevelAgrees.jump (Nat.zero_le _) (fun _ => rfl) cause stmt
  | returned => exact (h nesting).returnBody hn (Nat.zero_le _) fun _ => rfl
  | function => exact (h nesting).functionBody hn hb
  | definition name => exact (h nesting).definition hn hb name
  | parameters => exact LevelAgrees.parameters hb
  | parameter => exact LevelAgrees.parameter
  | assignment => exact (h nesting).assignmentBody hn hb
  | conditional => exact (h nesting).conditional hn hb
  | infixed count => exact (h nesting).infixed hn hb count
  | chain count left =>
      exact LevelAgrees.chain count (fun hj => (h nesting).infixed hj hb count) hn hb left
  | unary => exact (h nesting).unaryBody hn hb
  | postfixed => exact (h nesting).postfixed hn hb
  | suffixes e => exact (h nesting).suffixes hn hb hb e
  | primary => exact (h nesting).primary hn hb
  | items close => exact (h nesting).items close hn hb
  | itemsClosed close => exact (h nesting).itemsClosed close hn hb
  | field => exact (h nesting).field hn
  | fields => exact (h nesting).fields hn hb

/-- **Every walk ends.**  From each place of the grammar, however many levels of nesting and loops are open
and whatever tokens are left, if `stop` is the last of them: the walk takes no `stop` and leaves one, it takes
the tokens that it has to take if it succeeds, and it is in as many levels and loops as before whether it
succeeds or not.  The parser does the same, with all bounds on its loops from the number of tokens on. -/
theorem walk_ends {α : Type} (s : Symbol α) (walker : Walker) (hstop : Stopped walker.rest) :
    ∃ result taken rest, Ends (walk s) walker result { walker with rest } ∧
      walker.rest = taken ++ rest ∧ (∀ t ∈ taken, t.kind ≠ .stop) ∧ Stopped rest ∧
      (∀ a, result = .ok a → s.least ≤ taken.length) ∧
      ∀ bound, walker.rest.length ≤ bound →
        (s.parser bound walker.nesting walker.loops).run walker.rest = result.map fun a => (a, rest) := by
  have agrees : ∀ bound, walker.rest.length ≤ bound → AgreesOn walker.rest s.least walker.nesting
      walker.loops (walk s) (s.parser bound walker.nesting walker.loops) := fun bound hbound =>
    s.agrees hbound walker.nesting walker.loops walker.rest hstop (Nat.le_refl _) trivial
  rcases agrees walker.rest.length (Nat.le_refl _) with
    ⟨a, rest, hpass, -, hw⟩ | ⟨e, rest, hpass, -, hw⟩
  · obtain ⟨taken, hts, htaken, hleast⟩ := id hpass
    exact ⟨.ok a, taken, rest, hw, hts, htaken, hpass.stopped hstop, fun _ _ => hleast,
      fun bound hbound => (agrees bound hbound).run_of_walk hw⟩
  · obtain ⟨taken, hts, htaken, -⟩ := id hpass
    exact ⟨.error e, taken, rest, hw, hts, htaken, hpass.stopped hstop, fun _ h => (by cases h),
      fun bound hbound => (agrees bound hbound).run_of_walk hw⟩

/-- A loop that leaves itself at once, and the end. -/
def leavingLoop : List Token :=
  [⟨.keyword .while, ⟨1, 1⟩, false⟩, ⟨.sign .openParen, ⟨1, 7⟩, false⟩, ⟨.name "x", ⟨1, 8⟩, false⟩,
    ⟨.sign .closeParen, ⟨1, 9⟩, false⟩, ⟨.keyword .break, ⟨1, 11⟩, false⟩, ⟨.stop, ⟨1, 16⟩, false⟩]

/-- A statement that is read inside so many others that it can just be read, and inside one more. -/
theorem walk_ends_leavingLoop :
    Stopped leavingLoop ∧
    Ends (walk (.nested .statement)) ⟨leavingLoop, 509, 0⟩
      (.ok (.whileLoop (.name "x") .break)) ⟨[⟨.stop, ⟨1, 16⟩, false⟩], 509, 0⟩ ∧
    ∃ rest, Ends (walk (.nested .statement)) ⟨leavingLoop, 510, 0⟩
      (.error ⟨.nestingTooDeep, ⟨1, 8⟩⟩) ⟨rest, 510, 0⟩ := by
  have hstop : Stopped leavingLoop := ⟨leavingLoop.dropLast, ⟨.stop, ⟨1, 16⟩, false⟩, rfl, rfl⟩
  refine ⟨hstop, ?_, ?_⟩
  · obtain ⟨result, taken, rest, hends, -, -, -, -, hparser⟩ :=
      walk_ends (.nested .statement) ⟨leavingLoop, 509, 0⟩ hstop
    have hrun : result.map (fun a => (a, rest)) =
        .ok (.whileLoop (.name "x") .break, [⟨.stop, ⟨1, 16⟩, false⟩]) :=
      (hparser 6 (Nat.le_refl _)).symm.trans rfl
    cases result with
    | error e => cases hrun
    | ok a =>
        cases hrun
        exact hends
  · obtain ⟨result, taken, rest, hends, -, -, -, -, hparser⟩ :=
      walk_ends (.nested .statement) ⟨leavingLoop, 510, 0⟩ hstop
    have hrun : result.map (fun a => (a, rest)) = .error ⟨.nestingTooDeep, ⟨1, 8⟩⟩ :=
      (hparser 6 (Nat.le_refl _)).symm.trans rfl
    cases result with
    | error e =>
        cases hrun
        exact ⟨rest, hends⟩
    | ok a => cases hrun

end Stencil.Script.Parser
