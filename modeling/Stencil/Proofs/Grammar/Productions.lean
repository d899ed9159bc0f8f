import Stencil.Proofs.Grammar.Beside

/-!
# Grammar — the productions

One comparison (`Beside.lean`) for each production of the parser, over two levels whose own
productions compare.  What a production takes from the text it pays for with tokens, so the bounds
of its repetitions do not matter as long as no list is longer.

**Parsing elsewhere** (`levels_follow`).  The productions of one room and one bound follow those of
another; if the second room is smaller, the second parser may run out of it.
-/

namespace Stencil.Script

namespace Parser

theorem Closes.cases {kind : TokenKind} {rest : List Token} (h : Closes kind rest) :
    kind = .stop ∨ kind = .sign .closeBrace ∨ kind = .sign .closeParen ∨
      ∃ word, kind = .name word ∧ word ≠ "of" ∧ loopWord (headKind rest) = none := by
  cases kind with
  | stop => exact .inl rfl
  | sign s =>
      cases s with
      | closeBrace => exact .inr (.inl rfl)
      | closeParen => exact .inr (.inr (.inl rfl))
      | _ => exact h.elim
  | name word => exact .inr (.inr (.inr ⟨word, rfl, h⟩))
  | _ => exact h.elim

theorem statements_succ (level : Level) (inLoop : Bool) (bound : Nat) :
    statements level inLoop (bound + 1) = (do
      let kind ← peekKind
      if kind.isSign .closeBrace || kind.isStop then pure []
      else do
        let first ← level.statement inLoop
        let others ← statements level inLoop bound
        pure (first :: others)) := by
  funext ts
  cases ts <;> rfl

theorem atStatementEnd_bind {α : Type} (f : Bool → Parser α) :
    atStatementEnd >>= f = peek >>= fun token =>
      f (token.kind.isSign .closeBrace || token.kind.isStop || token.newlineBefore) := by
  funext ts
  cases ts <;> rfl

namespace Ending

variable {C : Ending} {n m bl br rl rr : Nat} {l r : Level} {S : TokenKind → Prop}
variable {free : Prop}

/-- **Levels whose productions compare.** -/
structure LevelFollows (C : Ending) (n : Nat) (l r : Level) : Prop where
  statement : ∀ inLoop, C.Follows C.EndsStatement n Any 1 (Stmt.Formed (inLoop = true))
    (l.statement inLoop) (r.statement inLoop)
  assignment : C.Follows True n Any 1 Expr.Formed l.assignment r.assignment
  unary : C.Follows True n Any 1 Expr.Formed l.unary r.unary

/-! ### Loop headers -/

theorem declKind_closes {kind : TokenKind} {rest : List Token} (h : Closes kind rest) :
    declKind kind = none := by
  rcases h.cases with rfl | rfl | rfl | ⟨word, rfl, -⟩ <;> rfl

theorem run_kindAhead (ahead : Nat) (ts : List Token) :
    (kindAhead ahead).run ts = .ok (headKind (ts.drop ahead), ts) := by
  rw [kindAhead, run_bind, show (StateT.run get ts : Except ParseError _) = .ok (ts, ts) from rfl]
  cases h : ts.drop ahead <;> simp only [h] <;> rfl

/-- A loop variable and the word after it, if both are next. -/
def loopName? : List Token → Option (String × LoopWord × List Token)
  | t :: u :: rest =>
    match t.kind, loopWord u.kind with
    | .name word, some loop => some (word, loop, rest)
    | _, _ => none
  | _ => none

theorem loopName?_eq_some {t u : Token} {rest : List Token} {word : String} {loop : LoopWord}
    (ht : t.kind = .name word) (hu : loopWord u.kind = some loop) :
    loopName? (t :: u :: rest) = some (word, loop, rest) := by
  simp only [loopName?, ht, hu]

theorem of_loopName? {ts rest : List Token} {word : String} {loop : LoopWord}
    (h : loopName? ts = some (word, loop, rest)) :
    ∃ t u, ts = t :: u :: rest ∧ t.kind = .name word ∧ loopWord u.kind = some loop := by
  match ts with
  | [] => cases h
  | [t] => cases h
  | t :: u :: rest' =>
      simp only [loopName?] at h
      cases ht : t.kind with
      | name w =>
          cases hu : loopWord u.kind with
          | some l =>
              rw [ht, hu] at h
              cases h
              exact ⟨t, u, rfl, ht, hu⟩
          | none => rw [ht, hu] at h; cases h
      | _ => rw [ht] at h; cases h

theorem match_loopName {β : Type} (ts : List Token) (f : String → LoopWord → β) (d : β) :
    (match headKind ts, loopWord (headKind (ts.drop 1)) with
      | .name word, some loop => f word loop
      | _, _ => d) =
    match loopName? ts with
      | some (word, loop, _) => f word loop
      | none => d := by
  match ts with
  | [] => rfl
  | [t] => cases h : t.kind <;> simp only [headKind, h] <;> rfl
  | t :: u :: rest =>
      cases ht : t.kind <;> cases hu : loopWord u.kind <;>
        simp only [headKind, loopName?, List.drop_succ_cons, List.drop_zero, ht, hu]

theorem run_advance_name {t : Token} {word : String} (h : t.kind = .name word) (ts : List Token) :
    advance.run (t :: ts) = .ok (t, ts) :=
  run_advance (by rw [h]; rfl) ts

theorem run_advance_loopWord {t : Token} {loop : LoopWord} (h : loopWord t.kind = some loop)
    (ts : List Token) : advance.run (t :: ts) = .ok (t, ts) :=
  run_advance (TokenKind.isStop_of_some h rfl) ts

/-- What `loopBinding` does, in terms of `loopName?`. -/
theorem run_loopBinding (t : Token) (ts : List Token) :
    loopBinding.run (t :: ts) =
      match loopName? (if (declKind t.kind).isSome then ts else t :: ts) with
      | some (word, loop, rest) => .ok (some (⟨declKind t.kind, word⟩, loop), rest)
      | none => .ok (none, t :: ts) := by
  rw [loopBinding, run_bind_of_ok _ (run_peekKind t ts)]
  simp only [run_bind_of_ok _ (run_kindAhead _ _)]
  cases hd : declKind t.kind with
  | none =>
      refine (congrArg (StateT.run · (t :: ts)) (match_loopName (t :: ts) _ _)).trans ?_
      cases h : loopName? (t :: ts) with
      | none => simp only [Option.isSome_none, Bool.false_eq_true, if_false, h, run_pure]
      | some found =>
          obtain ⟨word, loop, rest⟩ := found
          obtain ⟨t', u, he, ht, hu⟩ := of_loopName? h
          obtain ⟨rfl, rfl⟩ := List.cons.inj he
          simp only [Option.isSome_none, Bool.false_eq_true, if_false, h,
            run_bind_of_ok _ (run_advance_name ht _),
            run_bind_of_ok _ (run_advance_loopWord hu _), run_pure]
  | some d =>
      refine (congrArg (StateT.run · (t :: ts)) (match_loopName ts _ _)).trans ?_
      cases h : loopName? ts with
      | none => simp only [Option.isSome_some, if_true, h, run_pure]
      | some found =>
          obtain ⟨word, loop, rest⟩ := found
          obtain ⟨t', u, rfl, ht', hu⟩ := of_loopName? h
          have ht : t.kind.isStop = false := TokenKind.isStop_of_some hd rfl
          simp only [Option.isSome_some, if_true, h, run_bind_of_ok _ (run_advance ht _),
            run_bind_of_ok _ (run_advance_name ht' _),
            run_bind_of_ok _ (run_advance_loopWord hu _), run_pure]

theorem loopWord_name {word : String} (h : word ≠ "of") : loopWord (.name word) = none := by
  unfold loopWord
  split
  · rename_i hk
    cases hk
  · rename_i hk
    exact absurd (TokenKind.name.inj hk) h
  · rfl

theorem loopName?_of_closes {t u : Token} {rest : List Token} (hu : Closes u.kind rest) :
    loopName? (t :: u :: rest) = none := by
  have hw : loopWord u.kind = none := by
    rcases hu.cases with h | h | h | ⟨word, h, hof, -⟩
    · rw [h]; rfl
    · rw [h]; rfl
    · rw [h]; rfl
    · rw [h, loopWord_name hof]
  cases ht : t.kind <;> simp only [loopName?, ht, hw]

theorem loopName?_of_head_closes {t : Token} {ts : List Token} (ht : Closes t.kind ts) :
    loopName? (t :: ts) = none := by
  cases ts with
  | nil => rfl
  | cons u rest =>
      rcases ht.cases with h | h | h | ⟨word, h, -, hafter⟩
      · simp only [loopName?, h]
      · simp only [loopName?, h]
      · simp only [loopName?, h]
      · rw [headKind] at hafter
        simp only [loopName?, h, hafter]

theorem Beside.loopName {ts us : List Token} (h : C.Beside ts us) :
    (loopName? ts = none ∧ loopName? us = none) ∨
      ∃ word loop rest rest', loopName? ts = some (word, loop, rest) ∧
        loopName? us = some (word, loop, rest') ∧ C.Beside rest rest' ∧
        rest.length ≤ ts.length ∧ isName word = true := by
  cases h with
  | @stop t ht => exact .inl ⟨rfl, loopName?_of_head_closes C.closes⟩
  | @cons t u ts us hk hnl hs hsound hb =>
      cases hb with
      | @stop t' ht' => exact .inl ⟨@loopName?_of_closes t t' [] (by rw [ht']; trivial),
          loopName?_of_closes C.closes⟩
      | @cons t' u' ts us hk' hnl' hs' hsound' hb =>
          cases h : loopName? (t :: t' :: ts) with
          | none =>
              refine .inl ⟨rfl, ?_⟩
              simp only [loopName?] at h ⊢
              rw [← hk, ← hk']
              cases ht : t.kind <;> cases hu : loopWord t'.kind <;>
                first | rfl | (rw [ht, hu] at h; cases h)
          | some found =>
              obtain ⟨word, loop, rest⟩ := found
              obtain ⟨_, _, he, ht, hu⟩ := of_loopName? h
              cases he
              refine .inr ⟨word, loop, ts, us, rfl, loopName?_eq_some (hk ▸ ht) (hk' ▸ hu), hb, ?_, ?_⟩
              · exact Nat.le_trans (Nat.le_succ _) (Nat.le_succ _)
              · rw [ht] at hsound
                exact hsound

theorem Beside.loopBinding {ts us : List Token} (h : C.Beside ts us) :
    ∃ found rest rest', Parser.loopBinding.run ts = .ok (found, rest) ∧
      Parser.loopBinding.run us = .ok (found, rest') ∧ C.Beside rest rest' ∧
      rest.length ≤ ts.length ∧ ∀ b ∈ found, isName b.1.name = true := by
  cases h with
  | @stop t ht =>
      refine ⟨none, [t], C.head :: C.tail, ?_, ?_, .stop ht, Nat.le_refl _, nofun⟩
      · rw [run_loopBinding, ht]
        rfl
      · rw [run_loopBinding, declKind_closes C.closes]
        simp only [Option.isSome_none, Bool.false_eq_true, if_false,
          loopName?_of_head_closes C.closes]
  | @cons t u ts us hk hnl hs hsound hb =>
      have hboth := Beside.cons hk hnl hs hsound hb
      have hd : C.Beside (if (declKind t.kind).isSome then ts else t :: ts)
          (if (declKind t.kind).isSome then us else u :: us) := by
        cases (declKind t.kind).isSome with
        | true => exact hb
        | false => exact hboth
      rw [run_loopBinding, run_loopBinding, ← hk]
      rcases hd.loopName with ⟨h₁, h₂⟩ | ⟨word, loop, rest, rest', h₁, h₂, hr, hlen, hw⟩
      · rw [h₁, h₂]
        exact ⟨none, _, _, rfl, rfl, hboth, Nat.le_refl _, nofun⟩
      · rw [h₁, h₂]
        refine ⟨_, _, _, rfl, rfl, hr, Nat.le_trans hlen ?_, fun b hb => ?_⟩
        · cases (declKind t.kind).isSome with
          | true => exact Nat.le_succ _
          | false => exact Nat.le_refl _
        · cases hb
          exact hw

theorem exists_beside {ts : List Token} (h : Ended ts) : ∃ C : Ending, C.Beside ts ts := by
  induction h with
  | @stop t ht => exact ⟨⟨t, [], by rw [ht]; trivial, False⟩, .stop ht⟩
  | cons hs hsound _ ih =>
      obtain ⟨C, hb⟩ := ih
      exact ⟨C, .cons rfl rfl hs hsound hb⟩

namespace LevelFollows
open Follows

theorem mono (h : C.LevelFollows n l r) (hm : m ≤ n) : C.LevelFollows m l r :=
  ⟨fun inLoop => (h.statement inLoop).mono hm (Nat.le_refl _),
    h.assignment.mono hm (Nat.le_refl _), h.unary.mono hm (Nat.le_refl _)⟩

theorem expression (h : C.LevelFollows n l r) (hm : m ≤ n) :
    C.Follows free m S 1 Expr.Formed l.assignment r.assignment :=
  (h.mono hm).assignment.anyway

/-! ### Lists and functions -/

theorem statements (h : C.LevelFollows n l r) (inLoop : Bool) (hl : n ≤ bl) (hr : n ≤ br) :
    C.Follows C.EndsBlock n S 0 (FormedBody (inLoop = true)) (Parser.statements l inLoop bl)
      (Parser.statements r inLoop br) := by
  induction n generalizing S bl br with
  | zero => exact .zero
  | succ n ih =>
      obtain ⟨bl, rfl⟩ : ∃ b, bl = b + 1 := ⟨bl - 1, by omega⟩
      obtain ⟨br, rfl⟩ : ∃ b, br = b + 1 := ⟨br - 1, by omega⟩
      rw [statements_succ, statements_succ]
      refine .peekKind (fun kind _ _ _ => ?_) fun _ => ?_
      · cases hk : kind.isSign .closeBrace || kind.isStop with
        | true => exact .pure trivial
        | false =>
            have rest := ih (S := Any) (h.mono (Nat.le_succ n)) (show n ≤ bl by omega)
              (show n ≤ br by omega)
            have first := (h.statement inLoop).weaken (T := (· = kind)) EndsBlock.statement
              fun _ _ => trivial
            exact .drop (first.bind fun s hs => rest.bind fun others ho => .pure ⟨hs, ho⟩)
      · refine .pureAtEnd trivial fun hf => ?_
        rw [show (C.head.kind.isSign .closeBrace || C.head.kind.isStop) = true from hf]
        rfl

theorem braced (h : C.LevelFollows n l r) (inLoop : Bool) (hl : n ≤ bl) (hr : n ≤ br) :
    C.Follows free n S 1 (FormedBody (inLoop = true)) (Parser.braced l inLoop bl)
      (Parser.braced r inLoop br) := by
  have body := (h.mono (Nat.sub_le n 1)).statements (S := Any) inLoop
    (show n - 1 ≤ bl by omega) (show n - 1 ≤ br by omega)
  exact ((Follows.expectSign .openBrace).bind fun _ _ => body.bindClosed (l := 0) fun body hb =>
    (Follows.expectSign .closeBrace).bind fun _ _ => .pure hb).anyway

theorem parameters (hl : n ≤ bl) (hr : n ≤ br) :
    C.Follows True n S 0 (fun p => ∀ word ∈ p.1 ++ p.2.toList, isName word = true)
      (Parser.parameters bl) (Parser.parameters br) := by
  induction n generalizing S bl br with
  | zero => exact .zero
  | succ n ih =>
      obtain ⟨bl, rfl⟩ : ∃ b, bl = b + 1 := ⟨bl - 1, by omega⟩
      obtain ⟨br, rfl⟩ : ∃ b, br = b + 1 := ⟨br - 1, by omega⟩
      refine .atSign (.pure nofun) (.acceptSign (l := 1) id ?_ ?_ (by omega))
      · refine Follows.expectName.bind (l := 0) fun word hw => .pure fun x hx => ?_
        obtain rfl := List.mem_singleton.mp hx
        exact hw
      · refine Follows.expectName.bind (l := 0) fun word hw => ?_
        refine .acceptSign (l := 0) id ?_ ?_ (by omega)
        · have rest := ih (S := Any) (show n ≤ bl by omega) (show n ≤ br by omega)
          refine Follows.bind (l := 0) (rest.mono (by omega) (Nat.le_refl _)) fun more hm => ?_
          refine .pure fun x hx => ?_
          rcases List.mem_cons.mp hx with rfl | hx
          · exact hw
          · exact hm x hx
        · refine .pure fun x hx => ?_
          obtain rfl := List.mem_singleton.mp hx
          exact hw

theorem definitionRest (h : C.LevelFollows n l r) (hl : n ≤ bl) (hr : n ≤ br) {name : Option String}
    (hname : ∀ word ∈ name, isName word = true) :
    C.Follows free n S 1 (fun d => d.Formed ∧ d.name = name) (Parser.definitionRest l bl name)
      (Parser.definitionRest r br name) := by
  refine .anyway (Follows.bind (l := 0) (Follows.expectSign .openParen) fun _ _ => ?_)
  refine Follows.bind (l := 1) (parameters (by omega) (by omega)) fun names hnames => ?_
  refine Follows.bind (l := 1) (Follows.expectSign .closeParen) fun _ _ => ?_
  refine Follows.bind (l := 0) (braced (h.mono (by omega)) false (by omega) (by omega)) fun body hb => ?_
  refine .pure ⟨⟨fun word hw => ?_, ?_⟩, rfl⟩
  · rcases List.mem_append.mp hw with hw | hw
    · exact hname word (Option.mem_toList.mp hw)
    · exact hnames word hw
  · simpa using hb

theorem items (h : C.LevelFollows n l r) (close : Punctuator) (hl : n ≤ bl) (hr : n ≤ br) :
    C.Follows True n S 0 FormedAll (Parser.items l close bl) (Parser.items r close br) := by
  induction n generalizing S bl br with
  | zero => exact .zero
  | succ n ih =>
      obtain ⟨bl, rfl⟩ : ∃ b, bl = b + 1 := ⟨bl - 1, by omega⟩
      obtain ⟨br, rfl⟩ : ∃ b, br = b + 1 := ⟨br - 1, by omega⟩
      refine .atSign (.pure trivial) (h.assignment.bind (l := 0) fun e he => ?_)
      refine .acceptSign (l := 0) id ?_ (.pure ⟨he, trivial⟩) (by omega)
      have rest := ih (S := Any) (h.mono (Nat.le_succ n)) (show n ≤ bl by omega)
        (show n ≤ br by omega)
      exact Follows.bind (rest.mono (by omega) (Nat.le_refl _)) fun others ho => .pure ⟨he, ho⟩

theorem itemsClosed (h : C.LevelFollows n l r) (close : Punctuator) (hl : n ≤ bl) (hr : n ≤ br) :
    C.Follows True n S 0 FormedAll (Parser.itemsClosed l bl close)
      (Parser.itemsClosed r br close) :=
  (h.items close hl hr).bind fun _ hall =>
    (Follows.expectSign close).bind fun _ _ => .pure hall

theorem sound_fieldKey {kind : TokenKind} {key : String} (h : fieldKey kind = some (key, true))
    (hs : kind.Sound) : isName key = true := by
  cases kind with
  | name word => cases h; exact hs
  | _ => cases h

theorem field (h : C.LevelFollows n l r) :
    C.Follows True n S 1 (fun p => p.2.Formed) (Parser.field l) (Parser.field r) := by
  refine .peekKind (fun kind hstop hsound _ => ?_) fun _ => .unexpected
  cases hk : fieldKey kind with
  | none => exact .unexpected
  | some found =>
      obtain ⟨key, shorthand⟩ := found
      refine .skip (k := 0) hstop ?_
      refine .acceptSign (l := 1) id ?_ ?_ (by omega)
      · exact Follows.bind (h.expression (by omega)) fun e he => .pure he
      · cases shorthand with
        | true => exact .pure (sound_fieldKey hk hsound)
        | false => exact .unexpected

theorem fields (h : C.LevelFollows n l r) (hl : n ≤ bl) (hr : n ≤ br) :
    C.Follows True n S 0 FormedFields (Parser.fields l bl) (Parser.fields r br) := by
  induction n generalizing S bl br with
  | zero => exact .zero
  | succ n ih =>
      obtain ⟨bl, rfl⟩ : ∃ b, bl = b + 1 := ⟨bl - 1, by omega⟩
      obtain ⟨br, rfl⟩ : ∃ b, br = b + 1 := ⟨br - 1, by omega⟩
      refine .atSign (.pure trivial) (h.field.bind (l := 0) fun first hf => ?_)
      refine .acceptSign (l := 0) id ?_ (.pure ⟨hf, trivial⟩) (by omega)
      have rest := ih (S := Any) (h.mono (Nat.le_succ n)) (show n ≤ bl by omega)
        (show n ≤ br by omega)
      exact Follows.bind (rest.mono (by omega) (Nat.le_refl _)) fun others ho => .pure ⟨hf, ho⟩

/-! ### Expressions -/

/-- A function expression after its keyword and name. -/
theorem function (h : C.LevelFollows n l r) (hl : n ≤ bl) (hr : n ≤ br) {name : Option String}
    (hname : ∀ word ∈ name, isName word = true) :
    C.Follows True n S 1 Expr.Formed
      (Parser.definitionRest l bl name >>= fun d => pure (.function d))
      (Parser.definitionRest r br name >>= fun d => pure (.function d)) :=
  (h.definitionRest hl hr hname).bind fun _ hd => .pure hd.1

theorem primary (h : C.LevelFollows n l r) (hl : n ≤ bl) (hr : n ≤ br) :
    C.Follows True n S 1 Expr.Formed (Parser.primary l bl) (Parser.primary r br) := by
  refine .take (k := 0) (fun t ht => ?_) fun t u hk hstop hsound => ?_
  · simp only [ht]
    exact ⟨_, rfl⟩
  · rw [← hk]
    generalize t.kind = kind at hstop hsound
    cases kind with
    | number value => exact .pure trivial
    | string value => exact .pure trivial
    | name word => exact .pure hsound
    | stop => cases hstop
    | keyword word =>
        cases word with
        | «true» => exact .pure trivial
        | «false» => exact .pure trivial
        | null => exact .pure trivial
        | function =>
            refine .drop (.acceptName (k := 0) (l := 1) (fun word hw => ?_) ?_ (by omega))
            · refine function (h.mono (by omega)) (by omega) (by omega) fun w hw' => ?_
              cases hw'
              exact hw
            · exact function (h.mono (by omega)) (by omega) (by omega) nofun
        | _ => exact .of_fails fun ts he _ => ⟨_, rfl⟩
    | sign s =>
        cases s with
        | openParen =>
            exact .drop (Follows.bind (h.expression (by omega)) fun e he =>
              (Follows.expectSign .closeParen).bind fun _ _ => .pure he)
        | openBracket =>
            exact Follows.bind (itemsClosed (h.mono (by omega)) .closeBracket (by omega) (by omega))
              fun all hall => .pure hall
        | openBrace =>
            exact Follows.bind (fields (h.mono (by omega)) (by omega) (by omega)) fun all hall =>
              (Follows.expectSign .closeBrace).bind fun _ _ => .pure hall
        | _ => exact .of_fails fun ts he _ => ⟨_, rfl⟩

theorem suffixes (h : C.LevelFollows n l r) (hl : n ≤ bl) (hr : n ≤ br) (hm : m ≤ n) (hrl : m ≤ rl)
    (hrr : m ≤ rr) {e : Expr} (he : e.Formed) :
    C.Follows True m S 0 Expr.Formed (Parser.suffixes l bl rl e) (Parser.suffixes r br rr e) := by
  induction m generalizing S rl rr e with
  | zero => exact .zero
  | succ m ih =>
      obtain ⟨rl, rfl⟩ : ∃ b, rl = b + 1 := ⟨rl - 1, by omega⟩
      obtain ⟨rr, rfl⟩ : ∃ b, rr = b + 1 := ⟨rr - 1, by omega⟩
      have on : ∀ {e : Expr} {k : Nat}, e.Formed → k ≤ m → C.Follows True k Any 0 Expr.Formed
          (Parser.suffixes l bl rl e) (Parser.suffixes r br rr e) := fun he hk =>
        (ih (S := Any) (by omega) (by omega) (by omega) he).mono hk (Nat.le_refl _)
      refine .acceptSign (l := 0) id ?_ ?_ (by omega)
      · refine .peekKind (fun kind hstop _ _ => ?_) fun _ => .unexpected
        cases memberName kind with
        | none => exact .unexpected
        | some key =>
            exact .drop (.skip hstop (on he (by omega)))
      refine .acceptSign (l := 1) id ?_ ?_ (by omega)
      · refine Follows.bind (l := 1) (h.expression (by omega)) fun key hkey => ?_
        refine Follows.bind (l := 0) (Follows.expectSign .closeBracket) fun _ _ => ?_
        exact on (e := .index e key) ⟨he, hkey⟩ (by omega)
      refine .acceptSign (l := 0) id ?_ (.pure he) (by omega)
      refine Follows.bind (l := 0) (itemsClosed (h.mono (by omega)) .closeParen (by omega) (by omega))
        fun all hall => ?_
      exact on (e := .call e all) ⟨he, hall⟩ (by omega)

theorem postfixed (h : C.LevelFollows n l r) (hl : n ≤ bl) (hr : n ≤ br) :
    C.Follows True n S 1 Expr.Formed (Parser.postfixed l bl) (Parser.postfixed r br) := by
  refine Follows.bind (l := 0) (h.primary hl hr).anyway fun first hf => ?_
  refine Follows.bind (l := 0) (h.suffixes hl hr (by omega) (by omega) (by omega) hf) fun e he => ?_
  refine .peek (fun t u hk hnl hstop => ?_) fun t ht => ?_
  · simp only [← hk, ← hnl]
    cases (t.kind.isSign .increment || t.kind.isSign .decrement) && !t.newlineBefore with
    | false => exact .pure he
    | true =>
        cases ha : e.isAssignable with
        | false => exact .failHere _
        | true => exact .drop (.skip hstop (.pure ⟨ha, he⟩))
  · rcases C.closes.cases with hk | hk | hk | ⟨_, hk, -⟩ <;> simp only [ht, hk] <;> exact .pure he

theorem unaryBody (h : C.LevelFollows n l r) (hl : n ≤ bl) (hr : n ≤ br) :
    C.Follows True n S 1 Expr.Formed (Parser.unaryBody l bl) (Parser.unaryBody r br) := by
  refine .peekKind (fun kind hstop _ _ => ?_) fun _ => ?_
  · have operand := (h.mono (Nat.sub_le n 1)).unary
    cases unaryOp kind with
    | some op => exact .skip hstop (Follows.bind operand fun e he => .pure he)
    | none =>
        cases hi : (kind.isSign .increment || kind.isSign .decrement) with
        | false =>
            simp only [hi]
            exact h.postfixed hl hr
        | true =>
            simp only [hi]
            refine .skip (k := 1) hstop (operand.bind (l := 0) fun e he => ?_)
            cases ha : e.isAssignable with
            | true => exact .pure ⟨ha, he⟩
            | false => exact .failHere _
  · rcases C.closes.cases with hk | hk | hk | ⟨_, hk, -⟩ <;> simp only [hk] <;> exact h.postfixed hl hr

/-- No operator and no declaration begins where an expression ends. -/
theorem infixOfStrength_closes {strength : Nat} {kind : TokenKind} {rest : List Token}
    (h : Closes kind rest) :
    infixOfStrength strength kind = none := by
  rcases h.cases with rfl | rfl | rfl | ⟨word, rfl, -⟩ <;> rfl

theorem assignOp_closes {kind : TokenKind} {rest : List Token} (h : Closes kind rest) :
    assignOp kind = none := by
  rcases h.cases with rfl | rfl | rfl | ⟨word, rfl, -⟩ <;> rfl

theorem formed_apply (op : InfixOp) {left right : Expr} (hl : left.Formed) (hr : right.Formed) :
    (op.apply left right).Formed := by
  cases op with
  | binary op => exact ⟨hl, hr⟩
  | logical op => exact ⟨hl, hr⟩

theorem chain {p q : Parser Expr} (strength : Nat) (hop : C.Follows True n Any 1 Expr.Formed p q)
    (hm : m ≤ n) (hl : m ≤ rl) (hr : m ≤ rr) {e : Expr} (he : e.Formed) :
    C.Follows True m S 0 Expr.Formed (Parser.chain p strength rl e)
      (Parser.chain q strength rr e) := by
  induction m generalizing S rl rr e with
  | zero => exact .zero
  | succ m ih =>
      obtain ⟨rl, rfl⟩ : ∃ b, rl = b + 1 := ⟨rl - 1, by omega⟩
      obtain ⟨rr, rfl⟩ : ∃ b, rr = b + 1 := ⟨rr - 1, by omega⟩
      refine .peekKind (fun kind hstop _ _ => ?_) fun _ => ?_
      · cases infixOfStrength strength kind with
        | none => exact .pure he
        | some op =>
            refine .drop (.skip (k := 1) hstop ?_)
            refine Follows.bind (l := 0) (hop.mono (by omega) (Nat.le_refl _)) fun right hright => ?_
            have rest := ih (S := Any) (by omega) (show m ≤ rl by omega) (show m ≤ rr by omega)
              (formed_apply op he hright)
            exact rest.mono (by omega) (Nat.le_refl _)
      · simp only [infixOfStrength_closes C.closes]
        exact .pure he

theorem infixed (h : C.LevelFollows n l r) (hl : n ≤ bl) (hr : n ≤ br) (count : Nat) :
    C.Follows True n S 1 Expr.Formed (Parser.infixed l bl count) (Parser.infixed r br count) := by
  induction count generalizing S with
  | zero => exact h.unary.anyway
  | succ count ih =>
      exact ih.bind fun first hf => chain _ ih (by omega) (by omega) (by omega) hf

theorem conditional (h : C.LevelFollows n l r) (hl : n ≤ bl) (hr : n ≤ br) :
    C.Follows True n S 1 Expr.Formed (Parser.conditional l bl) (Parser.conditional r br) := by
  refine Follows.bind (l := 0) (h.infixed hl hr 7) fun test htest => ?_
  refine .acceptSign (l := 1) id ?_ (.pure htest) (by omega)
  refine Follows.bind (l := 1) (h.expression (by omega)) fun yes hyes => ?_
  refine Follows.bind (l := 1) (Follows.expectSign .colon) fun _ _ => ?_
  exact Follows.bind (h.expression (by omega)) fun no hno => .pure ⟨htest, hyes, hno⟩

theorem assignmentBody (h : C.LevelFollows n l r) (hl : n ≤ bl) (hr : n ≤ br) :
    C.Follows True n S 1 Expr.Formed (Parser.assignmentBody l bl) (Parser.assignmentBody r br) := by
  refine Follows.bind (l := 0) (h.conditional hl hr) fun left hleft => ?_
  refine .peekKind (fun kind hstop _ _ => ?_) fun _ => ?_
  · cases assignOp kind with
    | none => exact .pure hleft
    | some op =>
        cases ha : left.isAssignable with
        | false => exact .failHere _
        | true =>
            refine .drop (.skip (k := 1) hstop ?_)
            exact Follows.bind (h.expression (by omega)) fun value hv => .pure ⟨ha, hleft, hv⟩
  · simp only [assignOp_closes C.closes]
    exact .pure hleft

/-! ### Statements -/

theorem binding (h : C.LevelFollows n l r) (kind : DeclKind) :
    C.Follows free n S 1
      (fun p => isName p.1 = true ∧ (kind = .const → p.2.isSome = true) ∧ FormedOption p.2)
      (Parser.binding l kind) (Parser.binding r kind) := by
  refine .anyway (Follows.bind (l := 0) .expectName fun name hname => ?_)
  refine .acceptSign (l := 1) id ?_ ?_ (by omega)
  · exact Follows.bind (h.expression (by omega)) fun value hv => .pure ⟨hname, fun _ => rfl, hv⟩
  · cases kind with
    | const => exact .failHere _
    | _ => exact .pure ⟨hname, nofun, trivial⟩

theorem bindings (h : C.LevelFollows n l r) (kind : DeclKind) (hl : n ≤ bl) (hr : n ≤ br) :
    C.Follows free n S 0 (FormedBindings kind) (Parser.bindings l kind bl)
      (Parser.bindings r kind br) := by
  induction n generalizing S bl br with
  | zero => exact .zero
  | succ n ih =>
      obtain ⟨bl, rfl⟩ : ∃ b, bl = b + 1 := ⟨bl - 1, by omega⟩
      obtain ⟨br, rfl⟩ : ∃ b, br = b + 1 := ⟨br - 1, by omega⟩
      refine .drop (Follows.bind (l := 0) (h.binding kind) fun first hf => ?_)
      obtain ⟨name, value⟩ := first
      obtain ⟨hname, hconst, hvalue⟩ := hf
      refine .acceptSign (l := 0) id ?_ (.pure ⟨hname, hconst, hvalue, trivial⟩) (by omega)
      have rest := ih (S := Any) (h.mono (Nat.le_succ n)) (show n ≤ bl by omega)
        (show n ≤ br by omega)
      exact Follows.bind (rest.mono (by omega) (Nat.le_refl _)) fun others ho =>
        .pure ⟨hname, hconst, hvalue, ho⟩

theorem body (h : C.LevelFollows n l r) (hm : m ≤ n) (inLoop : Bool) :
    C.Follows C.EndsStatement m S 1 (Stmt.Formed (inLoop = true)) (l.statement inLoop)
      (r.statement inLoop) :=
  ((h.mono hm).statement inLoop).weaken id fun _ _ => trivial

theorem branchBody (h : C.LevelFollows n l r) (inLoop : Bool) :
    C.Follows C.EndsStatement n (· = .keyword .if) 1 (Stmt.Formed (inLoop = true))
      (Parser.branchBody l inLoop) (Parser.branchBody r inLoop) := by
  refine .skip (k := 1) rfl (Follows.bind (l := 1) (Follows.expectSign .openParen) fun _ _ => ?_)
  refine Follows.bind (l := 1) (h.expression (by omega)) fun test htest => ?_
  refine Follows.bind (l := 1) (Follows.expectSign .closeParen) fun _ _ => ?_
  refine Follows.bind (l := 0) (h.body (by omega) inLoop) fun yes hyes => ?_
  refine .acceptKeyword (l := 1) ?_ (.pure ⟨htest, hyes, trivial⟩) (by omega)
  exact Follows.bind (h.body (by omega) inLoop) fun no hno => .pure ⟨htest, hyes, hno⟩

theorem whileBody (h : C.LevelFollows n l r) (inLoop : Bool) :
    C.Follows C.EndsStatement n (· = .keyword .while) 1 (Stmt.Formed (inLoop = true))
      (Parser.whileBody l) (Parser.whileBody r) := by
  refine .skip (k := 1) rfl (Follows.bind (l := 1) (Follows.expectSign .openParen) fun _ _ => ?_)
  refine Follows.bind (l := 1) (h.expression (by omega)) fun test htest => ?_
  refine Follows.bind (l := 1) (Follows.expectSign .closeParen) fun _ _ => ?_
  refine Follows.bind (l := 0) (h.body (by omega) true) fun body hbody => .pure ?_
  exact ⟨htest, by simpa using hbody⟩

theorem endStatement :
    C.Follows C.EndsStatement n S 0 (fun _ => True) Parser.endStatement Parser.endStatement := by
  refine .acceptSign (l := 0) id (.pure trivial) ?_ (by omega)
  rw [atStatementEnd_bind]
  refine .peek (fun t u hk hnl _ => ?_) fun t ht => ?_
  · rw [← hk, ← hnl]
    cases t.kind.isSign .closeBrace || t.kind.isStop || t.newlineBefore with
    | true => exact .pure trivial
    | false => exact .unexpected
  · rw [ht]
    refine .pureAtEnd trivial fun hf => ?_
    rw [show (C.head.kind.isSign .closeBrace || C.head.kind.isStop || C.head.newlineBefore) = true
      from hf]
    rfl

theorem jump (inLoop : Bool) {cause : ParseError.Cause} {stmt : Stmt} {word : Keyword}
    (hs : inLoop = true → stmt.Formed (inLoop = true)) :
    C.Follows C.EndsStatement n (· = .keyword word) 1 (Stmt.Formed (inLoop = true))
      (Parser.jump inLoop cause stmt) (Parser.jump inLoop cause stmt) := by
  cases inLoop with
  | false => exact .failHere _
  | true => exact .skip rfl (endStatement.bind fun _ _ => .pure (hs rfl))

theorem returnBody_eq (level : Level) :
    Parser.returnBody level = (do
      let _ ← advance
      let token ← peek
      if token.kind.isSign .semicolon ||
          (token.kind.isSign .closeBrace || token.kind.isStop || token.newlineBefore) then do
        Parser.endStatement
        pure (.return none)
      else do
        let e ← level.assignment
        Parser.endStatement
        pure (.return (some e))) := by
  refine congrArg (advance >>= ·) (funext fun _ => funext fun ts => ?_)
  cases ts <;> rfl

theorem returnBody (h : C.LevelFollows n l r) (inLoop : Bool) :
    C.Follows C.EndsStatement n (· = .keyword .return) 1 (Stmt.Formed (inLoop = true))
      (Parser.returnBody l) (Parser.returnBody r) := by
  have bare : ∀ {T : TokenKind → Prop}, C.Follows C.EndsStatement (n - 1) T 0
      (Stmt.Formed (inLoop = true)) (Parser.endStatement >>= fun _ => pure (.return none))
      (Parser.endStatement >>= fun _ => pure (.return none)) :=
    endStatement.bind fun _ _ => .pure trivial
  rw [returnBody_eq, returnBody_eq]
  refine .skip (k := 0) rfl (.peek (fun t u hk hnl _ => ?_) fun t ht => ?_)
  · rw [← hk, ← hnl]
    cases t.kind.isSign .semicolon ||
        (t.kind.isSign .closeBrace || t.kind.isStop || t.newlineBefore) with
    | true => exact bare
    | false =>
        exact .drop (Follows.bind (h.expression (by omega)) fun e he =>
          endStatement.bind fun _ _ => .pure he)
  · rw [ht]
    by_cases hf : C.EndsStatement
    · simp only [show (C.head.kind.isSign .closeBrace || C.head.kind.isStop ||
        C.head.newlineBefore) = true from hf, Bool.or_true]
      exact bare
    · exact .closedOff bare hf

theorem functionBody (h : C.LevelFollows n l r) (hl : n ≤ bl) (hr : n ≤ br) (inLoop : Bool) :
    C.Follows C.EndsStatement n (· = .keyword .function) 1 (Stmt.Formed (inLoop = true))
      (Parser.functionBody l bl) (Parser.functionBody r br) := by
  refine .skip rfl (.acceptName (l := 1) (fun word hw => ?_) (.failHere _) (Nat.zero_le _))
  have hname : ∀ w ∈ some word, isName w = true := fun w hw' => by cases hw'; exact hw
  refine Follows.bind (l := 0) (definitionRest (h.mono (by omega)) (by omega) (by omega) hname)
    fun d hd => .pure ⟨?_, hd.1⟩
  rw [hd.2]
  rfl

/-! ### Loops -/

theorem loopBinding :
    C.Follows free n S 0 (fun found => ∀ b ∈ found, isName b.1.name = true) Parser.loopBinding
      Parser.loopBinding where
  left ts found rest he _ _ e := by
    obtain ⟨C', hb⟩ := exists_beside he
    obtain ⟨found', rest₁, rest₂, e', -, hr, hlen, hname⟩ := hb.loopBinding
    rw [e'] at e
    cases e
    exact ⟨hname, hr.ended, hlen⟩
  right ts us found rest hb _ _ e _ := by
    obtain ⟨found', rest₁, rest₂, e', e'', hr, -, -⟩ := hb.loopBinding
    rw [e'] at e
    cases e
    exact .inr ⟨rest₂, e'', hr⟩

theorem loopInit (h : C.LevelFollows n l r) (hl : n ≤ bl) (hr : n ≤ br) :
    C.Follows True n S 0 (fun init => (∀ s, init = some s → s.isHeader) ∧ FormedStmt True init)
      (Parser.loopInit l bl) (Parser.loopInit r br) := by
  have header : ∀ {T : TokenKind → Prop}, C.Follows True n T 0
      (fun init => (∀ s, init = some s → s.isHeader) ∧ FormedStmt True init)
      (l.assignment >>= fun e => pure (some (.expr e)))
      (r.assignment >>= fun e => pure (some (.expr e))) :=
    .drop (Follows.bind (h.expression (Nat.le_refl n)) fun e he =>
      .pure ⟨fun s hs => by cases hs; trivial, he⟩)
  refine .peekKind (fun kind hstop _ _ => ?_) fun _ => ?_
  · cases kind.isSign .semicolon with
    | true => exact .pure ⟨nofun, trivial⟩
    | false =>
        cases declKind kind with
        | none => exact header
        | some declared =>
            refine .drop (.skip (k := 0) hstop ?_)
            exact Follows.bind (bindings (h.mono (by omega)) declared (by omega) (by omega))
              fun all hall => .pure ⟨fun s hs => by cases hs; trivial, hall⟩
  · rcases C.closes.cases with hk | hk | hk | ⟨_, hk, -⟩ <;> rw [hk] <;> exact header

theorem unlessSign (h : C.LevelFollows n l r) (sign : Punctuator) :
    C.Follows True n S 0 FormedOption (Parser.unlessSign l sign) (Parser.unlessSign r sign) :=
  .atSign (.pure trivial) (Follows.bind h.assignment fun _ he => .pure he)

theorem forBody (h : C.LevelFollows n l r) (hl : n ≤ bl) (hr : n ≤ br) (inLoop : Bool) :
    C.Follows C.EndsStatement n (· = .keyword .for) 1 (Stmt.Formed (inLoop = true))
      (Parser.forBody l bl) (Parser.forBody r br) := by
  refine .skip (k := 1) rfl (Follows.bind (l := 0) (Follows.expectSign .openParen) fun _ _ => ?_)
  refine Follows.bind (l := 0) loopBinding fun header hheader => ?_
  cases header with
  | some found =>
      obtain ⟨target, word⟩ := found
      have hname : isName target.name = true := hheader _ rfl
      refine .drop (Follows.bind (l := 1) (h.expression (by omega)) fun subject hsubject => ?_)
      refine Follows.bind (l := 1) (Follows.expectSign .closeParen) fun _ _ => ?_
      refine Follows.bind (l := 0) (h.body (by omega) true) fun body hbody => ?_
      have hbody : body.Formed True := by simpa using hbody
      cases word with
      | «in» => exact .pure ⟨hname, hsubject, hbody⟩
      | of => exact .pure ⟨hname, hsubject, hbody⟩
  | none =>
      refine Follows.bind (l := 1) (loopInit (h.mono (by omega)) (by omega) (by omega)).anyway
        fun init hinit => ?_
      refine Follows.bind (l := 0) (Follows.expectSign .semicolon) fun _ _ => ?_
      refine Follows.bind (l := 1) (unlessSign (h.mono (by omega)) .semicolon).anyway
        fun test htest => ?_
      refine Follows.bind (l := 0) (Follows.expectSign .semicolon) fun _ _ => ?_
      refine Follows.bind (l := 1) (unlessSign (h.mono (by omega)) .closeParen).anyway
        fun update hupdate => ?_
      refine Follows.bind (l := 1) (Follows.expectSign .closeParen) fun _ _ => ?_
      refine Follows.bind (l := 0) (h.body (by omega) true) fun body hbody => .pure ?_
      exact ⟨hinit.1, hinit.2, htest, hupdate, by simpa using hbody⟩

/-! ### All statements -/

/-- A statement that no keyword or sign of its own begins. -/
theorem otherStatement (h : C.LevelFollows n l r) (hl : n ≤ bl) (hr : n ≤ br) (inLoop : Bool)
    (kind : TokenKind) :
    C.Follows C.EndsStatement n (· = kind) 1 (Stmt.Formed (inLoop = true))
      (match declKind kind with
        | some declared => do
          let _ ← advance
          let all ← Parser.bindings l declared bl
          Parser.endStatement
          pure (.declare declared all)
        | none => do
          let e ← l.assignment
          Parser.endStatement
          pure (.expr e))
      (match declKind kind with
        | some declared => do
          let _ ← advance
          let all ← Parser.bindings r declared br
          Parser.endStatement
          pure (.declare declared all)
        | none => do
          let e ← r.assignment
          Parser.endStatement
          pure (.expr e)) := by
  cases hd : declKind kind with
  | some declared =>
      refine .skip (k := 0) (TokenKind.isStop_of_some hd rfl) ?_
      exact Follows.bind (bindings (h.mono (by omega)) declared (by omega) (by omega))
        fun all hall => endStatement.bind fun _ _ => .pure hall
  | none =>
      exact Follows.bind (h.expression (Nat.le_refl n)) fun e he =>
        endStatement.bind fun _ _ => .pure he

theorem statementBody (h : C.LevelFollows n l r) (hl : n ≤ bl) (hr : n ≤ br) (inLoop : Bool) :
    C.Follows C.EndsStatement n S 1 (Stmt.Formed (inLoop = true)) (Parser.statementBody l bl inLoop)
      (Parser.statementBody r br inLoop) := by
  refine .peekKind (fun kind hstop _ _ => ?_) fun _ => ?_
  · cases kind with
    | sign s =>
        cases s with
        | openBrace => exact Follows.bind (h.braced inLoop hl hr) fun body hb => .pure hb
        | semicolon => exact .skip rfl (.pure trivial)
        | _ => exact h.otherStatement hl hr inLoop _
    | keyword word =>
        cases word with
        | «if» => exact h.branchBody inLoop
        | «for» => exact h.forBody hl hr inLoop
        | «while» => exact h.whileBody inLoop
        | «break» => exact jump inLoop fun hi => hi
        | «continue» => exact jump inLoop fun hi => hi
        | «return» => exact h.returnBody inLoop
        | function => exact h.functionBody hl hr inLoop
        | _ => exact h.otherStatement hl hr inLoop _
    | _ => exact h.otherStatement hl hr inLoop _
  · rcases C.closes.cases with hk | hk | hk | ⟨_, hk, -⟩ <;> rw [hk] <;>
      exact h.otherStatement hl hr inLoop .stop

end LevelFollows

/-! ### Levels -/

theorem Follows.tooDeep {α : Type} {k : Nat} {P : α → Prop} {p q : Parser α}
    (h : C.Follows free n S k P p q) (hd : C.deep) :
    C.Follows free n S k P p (Parser.failHere .nestingTooDeep) where
  left := h.left
  right ts us _ _ hb _ _ _ _ := by
    cases hb with
    | stop _ => exact .inl ⟨hd, _, rfl⟩
    | cons _ _ _ _ _ => exact .inl ⟨hd, _, rfl⟩

/-- **Parsing elsewhere.** -/
theorem levels_follow (roomL roomR : Nat) (hroom : roomR < roomL → C.deep) (hl : n ≤ bl)
    (hr : n ≤ br) : C.LevelFollows n (levels bl roomL) (levels br roomR) := by
  induction roomL generalizing roomR with
  | zero => exact ⟨fun _ => .failHere _, .failHere _, .failHere _⟩
  | succ roomL ih =>
      have level : ∀ room, (room < roomL → C.deep) →
          C.LevelFollows n (levels bl (roomL + 1)) (levels br (room + 1)) := fun room hroom =>
        ⟨fun inLoop => (ih room hroom).statementBody hl hr inLoop,
          (ih room hroom).assignmentBody hl hr, (ih room hroom).unaryBody hl hr⟩
      cases roomR with
      | zero =>
          have same := level roomL fun h => absurd h (Nat.lt_irrefl _)
          have deep := hroom (Nat.zero_lt_succ _)
          exact ⟨fun inLoop => (same.statement inLoop).tooDeep deep, same.assignment.tooDeep deep,
            same.unary.tooDeep deep⟩
      | succ roomR => exact level roomR fun h => hroom (Nat.succ_lt_succ h)

end Ending

end Parser

end Stencil.Script
