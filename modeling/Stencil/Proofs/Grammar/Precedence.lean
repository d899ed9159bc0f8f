import Stencil.Proofs.Grammar.Inverse

/-!
# Grammar — operators and their strengths

Operands joined by operators make one tree.  In a tree that is `Grouped`, no operand of an operator
is an expression with an operator that should have been taken later: the left one has an operator at
least as strong, and the right one a stronger one.  There is only one such tree with given operands
and operators in their order (`Tree.Grouped.unique`).

The parser reads operators by layers, one for each strength.  Another way is to climb: to read
operators of any strength from `least` on after an operand, and let each take a right operand with
stronger operators only (`climb`).  Both are readers `From` a strength: they make a grouped tree and
stop at a weaker operator.

**Operators** (`run_operators`).  Wherever operands with operators between them stand in a text, either
reader takes all of them and gives their grouped tree.
-/

namespace Stencil.Script.Parser

/-! ### Trees of operators -/

/-- An infix operator with its strength. -/
structure Operator where
  sign : Punctuator
  strength : Nat
  op : InfixOp
  known : infixOp sign = some (strength, op)

/-- Operands joined by operators.  An operand may have operators too, inside its parentheses. -/
inductive Tree where
  | operand (e : Expr)
  | join (o : Operator) (left right : Tree)

namespace Tree

/-- The expression that a tree of operators is. -/
def expr : Tree → Expr
  | .operand e => e
  | .join o left right => o.op.apply left.expr right.expr

/-- The operator that joins all of a tree. -/
def root : Tree → Option Operator
  | .operand _ => none
  | .join o _ _ => some o

/-- The first operand. -/
def first : Tree → Expr
  | .operand e => e
  | .join _ left _ => left.first

/-- The operators in order, each with the operand after it. -/
def others : Tree → List (Operator × Expr)
  | .operand _ => []
  | .join o left right => left.others ++ (o, right.first) :: right.others

/-- **Operators and their strengths.**  Left of an operator stands none that is weaker, and right of
it only stronger ones. -/
def Grouped : Tree → Prop
  | .operand _ => True
  | .join o left right => left.Grouped ∧ right.Grouped ∧
      (∀ l ∈ left.root, o.strength ≤ l.strength) ∧ ∀ r ∈ right.root, o.strength < r.strength

/-- No operator of a grouped tree is weaker than the one that joins it. -/
theorem Grouped.bounded {tree : Tree} {least : Nat} (h : tree.Grouped)
    (hroot : ∀ o ∈ tree.root, least ≤ o.strength) :
    ∀ pair ∈ tree.others, least ≤ pair.1.strength := by
  induction tree generalizing least with
  | operand e => exact fun _ h => nomatch h
  | join o left right ihl ihr =>
      obtain ⟨hl, hr, hleft, hright⟩ := h
      have ho : least ≤ o.strength := hroot o rfl
      intro pair hpair
      rw [others, List.mem_append, List.mem_cons] at hpair
      rcases hpair with hpair | rfl | hpair
      · exact ihl hl (fun l hl => Nat.le_trans ho (hleft l hl)) pair hpair
      · exact ho
      · exact ihr hr (fun r hr => Nat.le_trans ho (Nat.le_of_lt (hright r hr))) pair hpair

/-- The operator that joins a grouped tree is the last one of the weakest. -/
theorem Grouped.split {o o' : Operator} {left right left' right' : Tree}
    (h : (join o left right).Grouped) (h' : (join o' left' right').Grouped)
    (heq : (join o left right).others = (join o' left' right').others) :
    left.others = left'.others ∧ (o, right.first) = (o', right'.first) ∧
      right.others = right'.others := by
  have hright : ∀ pair ∈ right.others, o.strength < pair.1.strength := h.2.1.bounded h.2.2.2
  have hright' : ∀ pair ∈ right'.others, o'.strength < pair.1.strength := h'.2.1.bounded h'.2.2.2
  rcases List.append_eq_append_iff.mp heq with ⟨between, hleft, hmore⟩ | ⟨between, hleft, hmore⟩
  · cases between with
    | nil =>
        rw [List.append_nil] at hleft
        exact ⟨hleft.symm, List.cons.inj hmore⟩
    | cons pair between =>
        -- the second operator would stand right of the first one, and the first one left of it
        obtain ⟨rfl, hafter⟩ := List.cons.inj hmore
        have hless := hright (o', right'.first) (hafter ▸ List.mem_append_right _ List.mem_cons_self)
        have hle := h'.1.bounded h'.2.2.1 (o, right.first)
          (hleft ▸ List.mem_append_right _ List.mem_cons_self)
        exact absurd hless (Nat.not_lt.mpr hle)
  · cases between with
    | nil =>
        rw [List.append_nil] at hleft
        obtain ⟨hpair, hothers⟩ := List.cons.inj hmore
        exact ⟨hleft, hpair.symm, hothers.symm⟩
    | cons pair between =>
        obtain ⟨rfl, hafter⟩ := List.cons.inj hmore
        have hless := hright' (o, right.first) (hafter ▸ List.mem_append_right _ List.mem_cons_self)
        have hle := h.1.bounded h.2.2.1 (o', right'.first)
          (hleft ▸ List.mem_append_right _ List.mem_cons_self)
        exact absurd hless (Nat.not_lt.mpr hle)

/-- **There is one grouped tree** with given operands and operators in their order. -/
theorem Grouped.unique {tree tree' : Tree} (h : tree.Grouped) (h' : tree'.Grouped)
    (hfirst : tree.first = tree'.first) (hothers : tree.others = tree'.others) : tree = tree' := by
  induction tree generalizing tree' with
  | operand e =>
      cases tree' with
      | operand e' => exact congrArg operand hfirst
      | join o' left' right' => exact absurd hothers.symm (by simp [others])
  | join o left right ihl ihr =>
      cases tree' with
      | operand e' => exact absurd hothers (by simp [others])
      | join o' left' right' =>
          obtain ⟨hleft, hpair, hright⟩ := h.split h' hothers
          obtain ⟨rfl, hfirst'⟩ := Prod.mk.inj hpair
          rw [ihl h.1 h'.1 hfirst hleft, ihr h.2.1 h'.2.1 hfirst' hright]

end Tree

/-! ### Operands and operators in place -/

/-- **Operators and operands** at the front of tokens, after an operand; no operator comes next. -/
inductive Joined (operand : Parser Expr) : List Token → List (Operator × Expr) → List Token → Prop
  | done {rest : List Token} : (∀ o : Operator, headKind rest ≠ .sign o.sign) →
      Joined operand rest [] rest
  | more {t : Token} {ts mid rest : List Token} {e : Expr} {pairs : List (Operator × Expr)}
      (o : Operator) : t.kind = .sign o.sign → operand.run ts = .ok (e, mid) →
      Joined operand mid pairs rest → Joined operand (t :: ts) ((o, e) :: pairs) rest

/-- **An operand, and operators and operands after it.** -/
def Sequence (operand : Parser Expr) (ts : List Token) (first : Expr)
    (pairs : List (Operator × Expr)) (rest : List Token) : Prop :=
  ∃ mid, operand.run ts = .ok (first, mid) ∧ Joined operand mid pairs rest

/-- **What has been made** of an operand and what comes after it: a grouped tree of the first
operands and operators, with the others left. -/
structure Grown (operand : Parser Expr) (first : Expr) (pairs : List (Operator × Expr)) (tree : Tree)
    (left : List (Operator × Expr)) (mid rest : List Token) : Prop where
  joined : Joined operand mid left rest
  grouped : tree.Grouped
  first : tree.first = first
  others : pairs = tree.others ++ left

/-- A reader of operators from a strength on, for at most `n` of them.  It stops before a weaker
operator, or at the end. -/
def From (operand p : Parser Expr) (least n : Nat) : Prop :=
  ∀ {ts rest : List Token} {first : Expr} {pairs : List (Operator × Expr)},
    Sequence operand ts first pairs rest → pairs.length ≤ n →
    ∃ tree left mid, p.run ts = .ok (tree.expr, mid) ∧
      Grown operand first pairs tree left mid rest ∧
      (∀ o ∈ tree.root, least ≤ o.strength) ∧ ∀ pair ∈ left.head?, pair.1.strength < least

/-! ### The next operator -/

theorem infixOfStrength_operator (o : Operator) (strength : Nat) :
    infixOfStrength strength (.sign o.sign) = if o.strength = strength then some o.op else none := by
  simp only [infixOfStrength, o.known]

theorem infixOfStrength_none {kind : TokenKind} (h : ∀ o : Operator, kind ≠ .sign o.sign)
    (strength : Nat) : infixOfStrength strength kind = none := by
  cases kind with
  | sign sign =>
      rw [infixOfStrength]
      cases hop : infixOp sign with
      | none => rfl
      | some pair => exact absurd rfl (h ⟨sign, pair.1, pair.2, hop⟩)
  | _ => rfl

/-- The operator that a token is, with its strength. -/
def infixOf : TokenKind → Option (Nat × InfixOp)
  | .sign sign => infixOp sign
  | _ => none

theorem infixOf_none {kind : TokenKind} (h : ∀ o : Operator, kind ≠ .sign o.sign) :
    infixOf kind = none := by
  cases kind with
  | sign sign =>
      cases hop : infixOp sign with
      | none => exact hop
      | some pair => exact absurd rfl (h ⟨sign, pair.1, pair.2, hop⟩)
  | _ => rfl

section
variable {operand p : Parser Expr} {first : Expr} {pairs left : List (Operator × Expr)} {tree : Tree}
variable {mid rest : List Token}

theorem Grown.length_le (h : Grown operand first pairs tree left mid rest) :
    left.length ≤ pairs.length := by
  rw [h.others, List.length_append]
  exact Nat.le_add_left _ _

/-- An operand alone. -/
theorem Sequence.grown {ts : List Token} (h : Sequence operand ts first pairs rest) :
    ∃ mid, operand.run ts = .ok (first, mid) ∧
      Grown operand first pairs (.operand first) pairs mid rest := by
  obtain ⟨mid, hrun, hjoined⟩ := h
  exact ⟨mid, hrun, hjoined, trivial, rfl, rfl⟩

/-- **The next operator takes what stands before it**, and after it what a reader of stronger
operators makes. -/
theorem Grown.take {o : Operator} {e : Expr} {n : Nat}
    (h : Grown operand first pairs tree ((o, e) :: left) mid rest)
    (hp : From operand p (o.strength + 1) n) (hn : left.length ≤ n)
    (hroot : ∀ l ∈ tree.root, o.strength ≤ l.strength) :
    ∃ t ts right left' mid', mid = t :: ts ∧ t.kind = .sign o.sign ∧
      p.run ts = .ok (right.expr, mid') ∧
      Grown operand first pairs (.join o tree right) left' mid' rest ∧
      left'.length ≤ left.length ∧ ∀ pair ∈ left'.head?, pair.1.strength ≤ o.strength := by
  cases h.joined with
  | @more t ts after _ _ _ _ hkind hrun hjoined =>
      obtain ⟨right, left', mid', hright, hgrown, hstronger, hnext⟩ := hp ⟨after, hrun, hjoined⟩ hn
      refine ⟨t, ts, right, left', mid', rfl, hkind, hright, ?_, hgrown.length_le,
        fun pair hpair => Nat.le_of_lt_succ (hnext pair hpair)⟩
      refine ⟨hgrown.joined, ⟨h.grouped, hgrown.grouped, hroot, hstronger⟩, h.first, ?_⟩
      rw [h.others, hgrown.others, Tree.others, hgrown.first, List.append_assoc, List.cons_append]

theorem Joined.head {o : Operator} {e : Expr} (h : Joined operand mid ((o, e) :: left) rest) :
    headKind mid = .sign o.sign := by
  cases h with
  | more _ hkind _ _ => exact hkind

theorem Joined.head_nil (h : Joined operand mid [] rest) :
    mid = rest ∧ ∀ o : Operator, headKind mid ≠ .sign o.sign := by
  cases h with
  | done hnone => exact ⟨rfl, hnone⟩

/-! ### Layers -/

/-- **Operators of one strength**, after a left operand with operators at least as strong. -/
theorem Grown.chain {strength n : Nat} (hp : From operand p (strength + 1) n) {rounds : Nat}
    (h : Grown operand first pairs tree left mid rest) (hn : left.length ≤ n)
    (hrounds : left.length ≤ rounds) (hroot : ∀ o ∈ tree.root, strength ≤ o.strength)
    (hnext : ∀ pair ∈ left.head?, pair.1.strength ≤ strength) :
    ∃ tree' left' mid', Gives False (Parser.chain p strength rounds tree.expr) mid tree'.expr mid' ∧
      Grown operand first pairs tree' left' mid' rest ∧
      (∀ o ∈ tree'.root, strength ≤ o.strength) ∧
      ∀ pair ∈ left'.head?, pair.1.strength < strength := by
  induction rounds generalizing tree left mid with
  | zero =>
      obtain rfl : left = [] := List.eq_nil_of_length_eq_zero (by omega)
      exact ⟨tree, [], mid, .pure, h, hroot, fun _ h => nomatch h⟩
  | succ rounds ih =>
      cases left with
      | nil =>
          have hnone := infixOfStrength_none h.joined.head_nil.2 strength
          exact ⟨tree, [], mid, .chainDone hnone, h, hroot, fun _ h => nomatch h⟩
      | cons pair left =>
          obtain ⟨o, e⟩ := pair
          have ho : o.strength ≤ strength := hnext (o, e) rfl
          -- a weaker operator is left to the layer around this one
          by_cases hsame : o.strength = strength
          · subst hsame
            obtain ⟨t, ts, right, left', mid', rfl, hkind, hright, hgrown, hless, hnext'⟩ :=
              h.take hp (by simp only [List.length_cons] at hn; omega) hroot
            simp only [List.length_cons] at hn hrounds
            obtain ⟨tree', left'', mid'', hchain, hdone⟩ := ih hgrown (by omega) (by omega)
              (by rintro o' ho'; cases ho'; exact Nat.le_refl _) hnext'
            have hop : infixOfStrength o.strength t.kind = some o.op := by
              rw [hkind, infixOfStrength_operator, if_pos rfl]
            exact ⟨tree', left'', mid'', .chainStep o.op hop (.of_run hright) hchain, hdone⟩
          · have hother : infixOfStrength strength (headKind mid) = none := by
              rw [h.joined.head, infixOfStrength_operator, if_neg hsame]
            refine ⟨tree, (o, e) :: left, mid, .chainDone hother, h, hroot, fun pair hpair => ?_⟩
            cases hpair
            exact Nat.lt_of_le_of_ne ho hsame

end

theorem Operator.bounds (o : Operator) : 1 ≤ o.strength ∧ o.strength ≤ 7 :=
  infixOp_strength o.known

/-- **The layers of the parser** are readers from their strengths on. -/
theorem from_infixed (level : Level) (n : Nat) {count : Nat} (hcount : count ≤ 7) :
    From level.unary (infixed level n count) (8 - count) n := by
  induction count with
  | zero =>
      intro ts rest first pairs h hn
      obtain ⟨mid, hrun, hgrown⟩ := h.grown
      exact ⟨.operand first, pairs, mid, hrun, hgrown, (fun _ h => nomatch h),
        fun pair _ => Nat.lt_succ_of_le pair.1.bounds.2⟩
  | succ count ih =>
      -- the layer inside has taken all stronger operators
      intro ts rest first pairs h hn
      have hp : From level.unary (infixed level n count) (7 - count + 1) n := by
        rw [show 7 - count + 1 = 8 - count by omega]
        exact ih (by omega)
      obtain ⟨tree, left, mid, hrun, hgrown, hroot, hnext⟩ := hp h hn
      have hlength := Nat.le_trans hgrown.length_le hn
      obtain ⟨tree', left', mid', hchain, hdone⟩ := hgrown.chain hp hlength hlength
        (fun o ho => Nat.le_of_succ_le (hroot o ho))
        fun pair hpair => Nat.le_of_lt_succ (hnext pair hpair)
      rw [show 8 - (count + 1) = 7 - count by omega]
      exact ⟨tree', left', mid', (Gives.infixedChain (.of_run hrun) hchain).run, hdone⟩

/-! ### Climbing -/

/-- Operators at least as strong as `least` after a left operand.  Each takes an operand and the
stronger operators after it. -/
def climbAfter (operand : Parser Expr) : (bound : Nat) → (least : Nat) → Expr → Parser Expr
  | 0, _, left => pure left
  | bound + 1, least, left => do
    let kind ← peekKind
    match infixOf kind with
    | none => pure left
    | some (strength, op) =>
      if strength < least then pure left
      else do
        let _ ← advance
        let right ← operand >>= climbAfter operand bound (strength + 1)
        climbAfter operand bound least (op.apply left right)

/-- **Precedence climbing**: an operand with the operators after it that are at least as strong as
`least`; `bound` is no less than their number. -/
def climb (operand : Parser Expr) (bound least : Nat) : Parser Expr :=
  operand >>= climbAfter operand bound least

theorem infixOf_operator (o : Operator) : infixOf (.sign o.sign) = some (o.strength, o.op) :=
  o.known

/-- What climbing does after a left operand, with at most `bound` operators.  The next operator is
never stronger than the one that joins the left operand, since a stronger one would have been taken
before. -/
def Climbs (operand : Parser Expr) (bound : Nat) : Prop :=
  ∀ {least : Nat} {first : Expr} {pairs left : List (Operator × Expr)} {tree : Tree}
    {mid rest : List Token}, Grown operand first pairs tree left mid rest → left.length ≤ bound →
    (∀ o ∈ tree.root, least ≤ o.strength) →
    (∀ pair ∈ left.head?, ∀ o ∈ tree.root, pair.1.strength ≤ o.strength) →
    ∃ tree' left' mid',
      Gives False (climbAfter operand bound least tree.expr) mid tree'.expr mid' ∧
      Grown operand first pairs tree' left' mid' rest ∧
      (∀ o ∈ tree'.root, least ≤ o.strength) ∧ ∀ pair ∈ left'.head?, pair.1.strength < least

/-- An operand alone has no operator to be stronger than. -/
theorem Climbs.reads {operand : Parser Expr} {bound : Nat} (h : Climbs operand bound)
    (least : Nat) : From operand (climb operand bound least) least bound := by
  intro ts rest first pairs hsequence hbound
  obtain ⟨mid, hrun, hgrown⟩ := hsequence.grown
  obtain ⟨tree, left, mid', hafter, hdone⟩ :=
    @h least _ _ _ _ _ _ hgrown hbound (fun _ h => nomatch h) fun _ _ _ ho => nomatch ho
  exact ⟨tree, left, mid', (Gives.bind (.of_run hrun) hafter).run, hdone⟩

/-- **Climbing after a left operand.** -/
theorem climbs (operand : Parser Expr) (bound : Nat) : Climbs operand bound := by
  induction bound with
  | zero =>
      intro least first pairs left tree mid rest h hbound hroot _
      obtain rfl : left = [] := List.eq_nil_of_length_eq_zero (by omega)
      exact ⟨tree, [], mid, .pure, h, hroot, fun _ h => nomatch h⟩
  | succ bound ih =>
      intro least first pairs left tree mid rest h hbound hroot hnext
      cases left with
      | nil =>
          refine ⟨tree, [], mid, .peekKind ?_, h, hroot, fun _ h => nomatch h⟩
          simp only [infixOf_none h.joined.head_nil.2]
          exact .pure
      | cons pair left =>
          obtain ⟨o, e⟩ := pair
          simp only [List.length_cons] at hbound
          by_cases hweak : o.strength < least
          · refine ⟨tree, (o, e) :: left, mid, .peekKind ?_, h, hroot, fun pair hpair => ?_⟩
            · simp only [h.joined.head, infixOf_operator, if_pos hweak]
              exact .pure
            · cases hpair
              exact hweak
          · -- the right operand is read by climbing from the next strength on
            obtain ⟨t, ts, right, left', mid', rfl, hkind, hright, hgrown, hless, hnext'⟩ :=
              h.take (Climbs.reads ih (o.strength + 1)) (by omega) (hnext (o, e) rfl)
            obtain ⟨tree', left'', mid'', hafter, hdone⟩ := ih hgrown (by omega)
              (by rintro o' ho'; cases ho'; exact Nat.le_of_not_lt hweak)
              (by rintro pair hpair o' ho'; cases ho'; exact hnext' pair hpair)
            refine ⟨tree', left'', mid'', .peekKind ?_, hdone⟩
            simp only [headKind, hkind, infixOf_operator, if_neg hweak]
            exact .advance (by rw [hkind]; rfl) (.bind (.of_run hright) hafter)

/-! ### Whole sequences -/

/-- A reader of all operators takes a whole sequence. -/
theorem From.whole {operand p : Parser Expr} {n : Nat} (hp : From operand p 1 n)
    {ts rest : List Token} {first : Expr} {pairs : List (Operator × Expr)}
    (h : Sequence operand ts first pairs rest)
    (hn : pairs.length ≤ n) : ∃ tree : Tree, tree.Grouped ∧ tree.first = first ∧
      tree.others = pairs ∧ p.run ts = .ok (tree.expr, rest) := by
  obtain ⟨tree, left, mid, hrun, hgrown, -, hnext⟩ := hp h hn
  obtain rfl : left = [] := by
    cases left with
    | nil => rfl
    | cons pair left =>
        have hweak := hnext pair rfl
        have hstrong := pair.1.bounds.1
        omega
  obtain ⟨rfl, -⟩ := hgrown.joined.head_nil
  exact ⟨tree, hgrown.grouped, hgrown.first, by rw [hgrown.others, List.append_nil], hrun⟩

/-- The layers and climbing give the same tree. -/
theorem Sequence.run {level : Level} {n : Nat} {ts rest : List Token} {first : Expr}
    {pairs : List (Operator × Expr)} (h : Sequence level.unary ts first pairs rest)
    (hn : pairs.length ≤ n) : ∃ tree : Tree,
      (tree.Grouped ∧ tree.first = first ∧ tree.others = pairs) ∧
      (∀ tree' : Tree, tree'.Grouped ∧ tree'.first = first ∧ tree'.others = pairs → tree' = tree) ∧
      (infixed level n 7).run ts = .ok (tree.expr, rest) ∧
      (climb level.unary n 1).run ts = .ok (tree.expr, rest) := by
  have hlayers : From level.unary (infixed level n 7) 1 n := from_infixed level n (Nat.le_refl 7)
  have hclimb : From level.unary (climb level.unary n 1) 1 n := Climbs.reads (climbs level.unary n) 1
  obtain ⟨tree, hgrouped, hfirst, hothers, hrun⟩ := From.whole hlayers h hn
  obtain ⟨climbed, hgrouped', hfirst', hothers', hrun'⟩ := From.whole hclimb h hn
  have unique : ∀ tree' : Tree, tree'.Grouped ∧ tree'.first = first ∧ tree'.others = pairs →
      tree' = tree := by
    rintro tree' ⟨hg, hf, ho⟩
    exact hg.unique hgrouped (hf.trans hfirst.symm) (ho.trans hothers.symm)
  refine ⟨tree, ⟨hgrouped, hfirst, hothers⟩, unique, hrun, ?_⟩
  rw [← unique climbed ⟨hgrouped', hfirst', hothers'⟩]
  exact hrun'

/-! ### The tokens of a text -/

theorem Ended.of_suffix {t : Token} {ts all : List Token} (h : Ended all) (hts : t :: ts <:+ all) :
    Ended (t :: ts) := by
  induction h with
  | stop hk =>
      rcases List.suffix_cons_iff.mp hts with heq | hnil
      · rw [heq]
        exact .stop hk
      · cases List.suffix_nil.mp hnil
  | cons hstop hsound hended ih =>
      rcases List.suffix_cons_iff.mp hts with heq | hts
      · rw [heq]
        exact .cons hstop hsound hended
      · exact ih hts

section
variable {n room : Nat} {ts mid rest : List Token} {pairs : List (Operator × Expr)}

/-- An operand takes a token at least. -/
theorem unary_shortens {e : Expr} (h : (levels n room).unary.run ts = .ok (e, mid))
    (hended : Ended ts) (hn : ts.length ≤ n) : Ended mid ∧ mid.length < ts.length := by
  obtain ⟨C, -⟩ := Ending.exists_beside hended
  obtain ⟨-, hmid, hlength⟩ :=
    (@levels_follow_self C n room).unary.left ts e mid hended hn trivial h
  exact ⟨hmid, hlength⟩

theorem Joined.length_le (h : Joined (levels n room).unary mid pairs rest) (hended : Ended mid)
    (hn : mid.length ≤ n) : pairs.length ≤ mid.length := by
  induction h with
  | done _ => exact Nat.zero_le _
  | @more t ts mid rest e pairs o hkind hrun _ ih =>
      rw [List.length_cons] at hn ⊢
      rw [List.length_cons]
      cases hended with
      | stop hstop =>
          rw [hkind] at hstop
          cases hstop
      | cons _ _ hended =>
          obtain ⟨hmid, hless⟩ := unary_shortens hrun hended (by omega)
          have := ih hmid (by omega)
          omega

end

/-- **Operators are read by their strengths.**  At any token of a text, of operands with operators
between them the parser takes all, and gives the one grouped tree that has them in their order; and
so does climbing. -/
theorem run_operators {source : String} {all ts rest : List Token} {t : Token} {room : Nat}
    {first : Expr} {pairs : List (Operator × Expr)} (htokens : tokens source = .ok all)
    (hts : t :: ts <:+ all)
    (h : Sequence (levels all.length room).unary (t :: ts) first pairs rest) :
    ∃ tree : Tree, (tree.Grouped ∧ tree.first = first ∧ tree.others = pairs) ∧
      (∀ tree' : Tree, tree'.Grouped ∧ tree'.first = first ∧ tree'.others = pairs → tree' = tree) ∧
      (infixed (levels all.length room) all.length 7).run (t :: ts) = .ok (tree.expr, rest) ∧
      (climb (levels all.length room).unary all.length 1).run (t :: ts) = .ok (tree.expr, rest) := by
  have hended := (ended_of_tokens htokens).of_suffix hts
  refine h.run ?_
  obtain ⟨mid, hrun, hjoined⟩ := h
  obtain ⟨hmid, hless⟩ := unary_shortens hrun hended hts.length_le
  have hpairs := hjoined.length_le hmid (Nat.le_trans (Nat.le_of_lt hless) hts.length_le)
  exact Nat.le_trans hpairs (Nat.le_trans (Nat.le_of_lt hless) hts.length_le)

/-- Two operators of one strength, with a stronger one between them. -/
theorem run_operators_mixed :
    tokens "a-b*c-d" = .ok [⟨.name "a", ⟨1, 1⟩, false⟩, ⟨.sign .minus, ⟨1, 2⟩, false⟩,
      ⟨.name "b", ⟨1, 3⟩, false⟩, ⟨.sign .times, ⟨1, 4⟩, false⟩, ⟨.name "c", ⟨1, 5⟩, false⟩,
      ⟨.sign .minus, ⟨1, 6⟩, false⟩, ⟨.name "d", ⟨1, 7⟩, false⟩, ⟨.stop, ⟨1, 8⟩, false⟩] ∧
    (infixed (levels 8 1) 8 7).run [⟨.name "a", ⟨1, 1⟩, false⟩, ⟨.sign .minus, ⟨1, 2⟩, false⟩,
      ⟨.name "b", ⟨1, 3⟩, false⟩, ⟨.sign .times, ⟨1, 4⟩, false⟩, ⟨.name "c", ⟨1, 5⟩, false⟩,
      ⟨.sign .minus, ⟨1, 6⟩, false⟩, ⟨.name "d", ⟨1, 7⟩, false⟩, ⟨.stop, ⟨1, 8⟩, false⟩] =
      .ok (.binary .sub (.binary .sub (.name "a") (.binary .mul (.name "b") (.name "c"))) (.name "d"),
        [⟨.stop, ⟨1, 8⟩, false⟩]) := by
  have htokens : tokens "a-b*c-d" = .ok [⟨.name "a", ⟨1, 1⟩, false⟩, ⟨.sign .minus, ⟨1, 2⟩, false⟩,
      ⟨.name "b", ⟨1, 3⟩, false⟩, ⟨.sign .times, ⟨1, 4⟩, false⟩, ⟨.name "c", ⟨1, 5⟩, false⟩,
      ⟨.sign .minus, ⟨1, 6⟩, false⟩, ⟨.name "d", ⟨1, 7⟩, false⟩, ⟨.stop, ⟨1, 8⟩, false⟩] := rfl
  let minus : Operator := ⟨.minus, 6, .binary .sub, rfl⟩
  let times : Operator := ⟨.times, 7, .binary .mul, rfl⟩
  obtain ⟨tree, -, unique, hrun, -⟩ := @run_operators _ _ _ [⟨.stop, ⟨1, 8⟩, false⟩] _ 1 (.name "a")
    [(minus, .name "b"), (times, .name "c"), (minus, .name "d")] htokens (List.suffix_refl _)
    ⟨_, rfl, .more _ rfl rfl (.more _ rfl rfl (.more _ rfl rfl (.done fun _ h => nomatch h)))⟩
  have none : ∀ {e : Expr} {P : Operator → Prop}, ∀ o ∈ (Tree.operand e).root, P o :=
    fun _ h => nomatch h
  have htree := unique (.join minus (.join minus (.operand (.name "a")) (.join times
    (.operand (.name "b")) (.operand (.name "c")))) (.operand (.name "d"))) ⟨?_, rfl, rfl⟩
  · rw [← htree] at hrun
    exact ⟨htokens, hrun⟩
  · refine ⟨⟨trivial, ⟨trivial, trivial, none, none⟩, none, ?_⟩, trivial, ?_, none⟩
    · rintro r hr
      cases hr
      decide
    · rintro l hl
      cases hl
      decide

end Stencil.Script.Parser
