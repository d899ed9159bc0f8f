import Stencil.Proofs.Compile.Spliced
import Stencil.Proofs.Grammar.Forms

/-!
# Compile — values in a body

A directive that writes a value puts its expression between parentheses.  There the parser makes of it
what it makes of the expression alone, whatever the expression is (`Expresses.gives`).  Around it a
choice writes nothing for `undefined` and `null` (`writtenValue`), and the string before it, the choice
and the string after it are added from left to right (`gives_value`).
-/

namespace Stencil
open Script Script.Parser

/-! ### Expressions between parentheses -/

/-- **An expression in parentheses** is parsed there as it is alone, unless it nests too deep. -/
theorem Script.Expresses.gives {text : String} {e : Expr} (h : Expresses text e) {own : List Mark}
    (hown : Template.Alone text.toList own) {ts rest : List Token} (hts : ts.map Token.mark = own)
    {t : Token} (ht : t.kind = .sign .closeParen) {n room : Nat} (hn : ts.length < n) :
    Gives True (levels n room).assignment (ts ++ t :: rest) e (t :: rest) := by
  obtain ⟨room₀, us, last, htokens, -, he⟩ := h.exists_run
  obtain ⟨after, newline, hr, hover⟩ := hown
  obtain ⟨us', htokens', hus⟩ := tokens_of_reads hr hover
  cases htokens.symm.trans htokens'
  have hlen : us.length = ts.length + 1 := by
    rw [← List.length_map Token.mark, hus, ← hts, List.length_append, List.length_map]
    rfl
  let C : Ending := ⟨t, rest, by rw [ht]; trivial, True⟩
  have follows : C.LevelFollows us.length (levels us.length room₀) (levels n room) :=
    Ending.levels_follow room₀ room (fun _ => trivial) (Nat.le_refl _) (by omega)
  exact (follows.assignment.right us _ _ _ (C.beside_of_marks hus hts hr.sound) (Nat.le_refl _)
    trivial he (.inl trivial)).gives

namespace Template

/-- A literal or a name alone. -/
theorem gives_atom {n room : Nat} {rest : List Token} {e : Expr} {t : Token}
    (ht : atom? t.kind = some e) (hr : EndsExpr (headKind rest)) :
    Gives True (levels n room).assignment (t :: rest) e rest :=
  .assignment (fun _ => trivial) fun _ _ =>
    .operand (.atomOperand (fun _ => trivial) ht hr.operand) hr

/-! ### What a directive writes -/

/-- The kind of a directive that writes a value. -/
def valueKind (escapes : Bool) : Directive :=
  if escapes then .escape else .interpolate

/-- The value that was kept, escaped or as it is. -/
def keptValue (escapes : Bool) : Expr :=
  if escapes then .call (.member (.name "_") "escape") [.name "__t"] else .name "__t"

/-- What a directive writes: the value of its expression, nothing for `undefined` and `null`. -/
def writtenValue (escapes : Bool) (e : Expr) : Expr :=
  .conditional (.binary .equal (.assign none (.name "__t") e) .null) (.string "")
    (keptValue escapes)

/-- The tokens of what is written if there is something. -/
def keptKinds (escapes : Bool) : List TokenKind :=
  if escapes then [.name "_", .sign .dot, .name "escape", .sign .openParen, .name "__t",
    .sign .closeParen] else [.name "__t"]

theorem opening_valueKind (escapes : Bool) :
    opening (valueKind escapes) = opening .interpolate := by
  cases escapes <;> rfl

theorem closing_valueKind (escapes : Bool) : closing (valueKind escapes) =
    [.sign .closeParen, .sign .closeParen, .sign .equal, .keyword .null, .sign .question, .string "",
      .sign .colon] ++ (keptKinds escapes ++ [.sign .closeParen, .sign .plus]) := by
  cases escapes <;> rfl

theorem entered_valueKind (escapes : Bool) (own : List Mark) :
    entered (valueKind escapes) own = own := by
  cases escapes <;> rfl

section
variable {n room : Nat} {ts rest after : List Token} {e : Expr}

/-- The value of an expression is kept and compared with nothing. -/
theorem gives_test {text : String} (he : Expresses text e) {own : List Mark}
    (hown : Alone text.toList own) (hts : ts.map Token.mark = own) (hn : ts.length < n)
    {a₁ a₂ a₃ a₄ b₁ b₂ b₃ b₄ b₅ : Token} (ha₁ : a₁.kind = .sign .openParen)
    (ha₂ : a₂.kind = .name "__t") (ha₃ : a₃.kind = .sign .assign)
    (ha₄ : a₄.kind = .sign .openParen) (hb₁ : b₁.kind = .sign .closeParen)
    (hb₂ : b₂.kind = .sign .closeParen) (hb₃ : b₃.kind = .sign .equal)
    (hb₄ : b₄.kind = .keyword .null) (hb₅ : b₅.kind = .sign .question) :
    Gives True (infixed (levels n room) n 7)
      (a₁ :: a₂ :: a₃ :: a₄ :: (ts ++ b₁ :: b₂ :: b₃ :: b₄ :: b₅ :: rest))
      (.binary .equal (.assign none (.name "__t") e) .null) (b₅ :: rest) := by
  -- read as `(__t=(e))==null`: the outer parentheses hold an assignment of the expression in its own
  have ends₂ : EndsExpr b₂.kind := by rw [hb₂]; exact endsExpr_sign (by decide)
  have value : ∀ r, Gives True (levels n r).assignment (a₄ :: (ts ++ b₁ :: b₂ :: b₃ :: b₄ :: b₅ :: rest))
      e (b₂ :: b₃ :: b₄ :: b₅ :: rest) := fun r =>
    .assignment (fun _ => trivial) fun r _ => .operand (.parenOperand (fun _ => trivial) ha₄
      (fun r _ => he.gives hown hts hb₁ hn) hb₁ ends₂.operand) ends₂
  have assign : ∀ r, Gives True (levels n r).assignment
      (a₂ :: a₃ :: a₄ :: (ts ++ b₁ :: b₂ :: b₃ :: b₄ :: b₅ :: rest))
      (.assign none (.name "__t") e) (b₂ :: b₃ :: b₄ :: b₅ :: rest) := by
    intro r
    refine .assignment (fun _ => trivial) fun r _ => .assign (.conditional (.operands
      (.atomOperand (fun _ => trivial) (by rw [ha₂]; rfl) ?_) fun k _ => ?_) ?_)
      (by rw [ha₃]; rfl) rfl (value r)
    · rw [headKind, ha₃]
      decide
    · rw [headKind, ha₃]
      rfl
    · rw [headKind, ha₃]
      rfl
  obtain ⟨n, rfl⟩ : ∃ m, n = m + 1 := ⟨n - 1, by omega⟩
  have left : Gives True (infixed (levels (n + 1) room) (n + 1) 3)
      (a₁ :: a₂ :: a₃ :: a₄ :: (ts ++ b₁ :: b₂ :: b₃ :: b₄ :: b₅ :: rest))
      (.assign none (.name "__t") e) (b₃ :: b₄ :: b₅ :: rest) := by
    refine .operands (.parenOperand (fun _ => trivial) ha₁ (fun r _ => assign r) hb₂ ?_) ?_
    · rw [headKind, hb₃]
      decide
    · rw [headKind, hb₃]
      decide
  have right : Gives True (infixed (levels (n + 1) room) (n + 1) 3) (b₄ :: b₅ :: rest) .null
      (b₅ :: rest) := by
    refine .operands (.atomOperand (fun _ => trivial) (by rw [hb₄]; rfl) ?_) ?_ <;>
      rw [headKind, hb₅]
    · decide
    · intro k _
      rfl
  have test := Gives.infixedChain left (.chainStep (.binary .equal) (by rw [hb₃]; rfl) right
    (.chainDone (by rw [headKind, hb₅]; rfl)))
  exact test.infixed (fun k _ => by rw [headKind, hb₅]; rfl) (by decide)

/-- Calling the function that escapes. -/
theorem gives_escape {c₁ c₂ c₃ c₄ c₅ c₆ : Token} (h₁ : c₁.kind = .name "_")
    (h₂ : c₂.kind = .sign .dot) (h₃ : c₃.kind = .name "escape") (h₄ : c₄.kind = .sign .openParen)
    (h₅ : c₅.kind = .name "__t") (h₆ : c₆.kind = .sign .closeParen) (hn : 1 < n)
    (hr : EndsExpr (headKind rest)) :
    Gives True (levels n room).assignment (c₁ :: c₂ :: c₃ :: c₄ :: c₅ :: c₆ :: rest)
      (.call (.member (.name "_") "escape") [.name "__t"]) rest := by
  obtain ⟨n, rfl⟩ : ∃ m, n = m + 2 := ⟨n - 2, by omega⟩
  have ends₆ : EndsExpr c₆.kind := by rw [h₆]; exact endsExpr_sign (by decide)
  refine .assignment (fun _ => trivial) fun r _ => .operand (.unary (fun _ => trivial) fun r _ =>
    .unaryName h₁ (.suffixesMember h₂ h₃ (.suffixesCall h₄ ?_ (gives_atom (by rw [h₅]; rfl) ends₆) h₆
      (Nat.zero_lt_succ _) (.suffixesDone hr.operand))) hr.operand) hr
  rw [headKind, h₅]
  rfl

theorem gives_kept {escapes : Bool} (h : kinds ts = keptKinds escapes) (hn : 1 < n)
    (hr : EndsExpr (headKind rest)) :
    Gives True (levels n room).assignment (ts ++ rest) (keptValue escapes) rest := by
  cases escapes with
  | false =>
      obtain ⟨c, rfl, hc⟩ := List.map_eq_singleton_iff.mp h
      exact gives_atom (by rw [hc]; rfl) hr
  | true =>
      obtain ⟨c₁, ts, rfl, h₁, h⟩ := List.map_eq_cons_iff.mp h
      obtain ⟨c₂, ts, rfl, h₂, h⟩ := List.map_eq_cons_iff.mp h
      obtain ⟨c₃, ts, rfl, h₃, h⟩ := List.map_eq_cons_iff.mp h
      obtain ⟨c₄, ts, rfl, h₄, h⟩ := List.map_eq_cons_iff.mp h
      obtain ⟨c₅, ts, rfl, h₅, h⟩ := List.map_eq_cons_iff.mp h
      obtain ⟨c₆, ts, rfl, h₆, h⟩ := List.map_eq_cons_iff.mp h
      obtain rfl := List.map_eq_nil_iff.mp h
      exact gives_escape h₁ h₂ h₃ h₄ h₅ h₆ hn hr

/-! ### Strings and values added -/

/-- Whether no strong operator and no suffix goes on from a string. -/
def EndsText (kind : TokenKind) : Prop :=
  EndsOperand kind ∧ infixOfStrength 7 kind = none

theorem endsText_plus : EndsText (.sign .plus) :=
  ⟨by decide, rfl⟩

theorem endsText_semicolon : EndsText (.sign .semicolon) :=
  ⟨by decide, rfl⟩

/-- A string that is added. -/
theorem gives_text {t : Token} {text : String} (ht : t.kind = .string text)
    (hr : EndsText (headKind rest)) :
    Gives True (infixed (levels n room) n 1) (t :: rest) (.string text) rest := by
  refine .operands (.atomOperand (fun _ => trivial) (by rw [ht]; rfl) hr.1) fun k hk => ?_
  obtain rfl : k = 0 := by omega
  exact hr.2

/-- **A value and the string after it**, added to what stands before. -/
theorem gives_value {text : String} (he : Expresses text e) {own : List Mark}
    (hown : Alone text.toList own) (hts : ts.map Token.mark = own) {escapes : Bool}
    {ts₁ ts₂ : List Token} (h₁ : kinds ts₁ = opening (valueKind escapes))
    (h₂ : kinds ts₂ = closing (valueKind escapes)) {t : Token} {string : String}
    (ht : t.kind = .string string) (hn : ts₁.length + ts.length < n) {left e' : Expr}
    {rounds : Nat} (hr : EndsText (headKind rest))
    (hmore : Gives True (chain (infixed (levels n room) n 1) 6 rounds
      (.binary .add (.binary .add left (writtenValue escapes e)) (.string string))) rest e' after) :
    Gives True (chain (infixed (levels n room) n 1) 6 (rounds + 2) left)
      (ts₁ ++ (ts ++ (ts₂ ++ t :: rest))) e' after := by
  rw [opening_valueKind] at h₁
  obtain ⟨a₁, ts₁, rfl, ha₁, h₁⟩ := List.map_eq_cons_iff.mp h₁
  obtain ⟨a₂, ts₁, rfl, ha₂, h₁⟩ := List.map_eq_cons_iff.mp h₁
  obtain ⟨a₃, ts₁, rfl, ha₃, h₁⟩ := List.map_eq_cons_iff.mp h₁
  obtain ⟨a₄, ts₁, rfl, ha₄, h₁⟩ := List.map_eq_cons_iff.mp h₁
  obtain ⟨a₅, ts₁, rfl, ha₅, h₁⟩ := List.map_eq_cons_iff.mp h₁
  obtain ⟨a₆, ts₁, rfl, ha₆, h₁⟩ := List.map_eq_cons_iff.mp h₁
  obtain rfl := List.map_eq_nil_iff.mp h₁
  rw [closing_valueKind] at h₂
  obtain ⟨first, more, rfl, hfirst, h₂⟩ := List.map_eq_append_iff.mp h₂
  obtain ⟨kept, last, rfl, hkept, hlast⟩ := List.map_eq_append_iff.mp h₂
  obtain ⟨b₁, first, rfl, hb₁, h⟩ := List.map_eq_cons_iff.mp hfirst
  obtain ⟨b₂, first, rfl, hb₂, h⟩ := List.map_eq_cons_iff.mp h
  obtain ⟨b₃, first, rfl, hb₃, h⟩ := List.map_eq_cons_iff.mp h
  obtain ⟨b₄, first, rfl, hb₄, h⟩ := List.map_eq_cons_iff.mp h
  obtain ⟨b₅, first, rfl, hb₅, h⟩ := List.map_eq_cons_iff.mp h
  obtain ⟨b₆, first, rfl, hb₆, h⟩ := List.map_eq_cons_iff.mp h
  obtain ⟨b₇, first, rfl, hb₇, h⟩ := List.map_eq_cons_iff.mp h
  obtain rfl := List.map_eq_nil_iff.mp h
  obtain ⟨c, last, rfl, hc, h⟩ := List.map_eq_cons_iff.mp hlast
  obtain ⟨p, rfl, hp⟩ := List.map_eq_singleton_iff.mp h
  simp only [List.length_cons, List.append_assoc, List.cons_append, List.nil_append] at hn ⊢
  -- read as `+(test?'':kept)+'...'`: two steps of the chain of additions
  have endsC : EndsExpr c.kind := by rw [hc]; exact endsExpr_sign (by decide)
  have ends₇ : EndsExpr b₇.kind := by rw [hb₇]; exact endsExpr_sign (by decide)
  have value : ∀ r, Gives True (levels n r).assignment
      (a₃ :: a₄ :: a₅ :: a₆ :: (ts ++ b₁ :: b₂ :: b₃ :: b₄ :: b₅ :: b₆ :: b₇ ::
        (kept ++ c :: p :: t :: rest))) (writtenValue escapes e) (c :: p :: t :: rest) := fun r =>
    .assignment (fun _ => trivial) fun r _ => .assignmentBody
      (.choice (gives_test he hown hts (by omega) ha₃ ha₄ ha₅ ha₆ hb₁ hb₂ hb₃ hb₄ hb₅)
        hb₅ (gives_atom (by rw [hb₆]; rfl) ends₇) hb₇ (gives_kept hkept (by omega) endsC))
      endsC.assign
  have operand : Gives True (infixed (levels n room) n 1)
      (a₂ :: a₃ :: a₄ :: a₅ :: a₆ :: (ts ++ b₁ :: b₂ :: b₃ :: b₄ :: b₅ :: b₆ :: b₇ ::
        (kept ++ c :: p :: t :: rest))) (writtenValue escapes e) (p :: t :: rest) := by
    refine .operands (.parenOperand (fun _ => trivial) ha₂ (fun r _ => value r) hc ?_) ?_ <;>
      rw [headKind, hp] <;> decide
  exact .chainStep (.binary .add) (by rw [ha₁]; rfl) operand
    (.chainStep (.binary .add) (by rw [hp]; rfl) (gives_text ht hr) hmore)

end

/-! ### Statements that add to the output -/

/-- The statement that adds to the output. -/
def appending (e : Expr) : Stmt :=
  .expr (.assign (some .add) (.name "__p") e)

/-- **A string and what is added to it make a statement**, up to a semicolon. -/
theorem gives_appending {p q t last : Token} {text : String} (hp : p.kind = .name "__p")
    (hq : q.kind = .sign .plusAssign) (ht : t.kind = .string text)
    (hlast : last.kind = .sign .semicolon) {us x : List Token} {e : Expr} {n : Nat} (room : Nat)
    (hends : EndsText (headKind (us ++ last :: x)))
    (hchain : ∀ r, Gives True (chain (infixed (levels n r) n 1) 6 n (.string text))
      (us ++ last :: x) e (last :: x)) (inLoop : Bool) :
    Gives True ((levels n room).statement inLoop) (p :: q :: t :: (us ++ last :: x)) (appending e)
      x := by
  have target : ∀ r, Gives True (conditional (levels n r) n) (p :: q :: t :: (us ++ last :: x))
      (.name "__p") (q :: t :: (us ++ last :: x)) := by
    intro r
    refine .conditional (.operands (.atomOperand (fun _ => trivial) (by rw [hp]; rfl) ?_)
      fun k _ => ?_) ?_ <;> rw [headKind, hq]
    · decide
    · rfl
    · rfl
  have value : ∀ r, Gives True (levels n r).assignment (t :: (us ++ last :: x)) e (last :: x) := by
    intro r
    refine .assignment (fun _ => trivial) fun r _ => .assignmentBody (.conditional
      (.infixed (.infixedChain (gives_text ht hends) (hchain r)) (fun k _ => ?_)
        (by decide)) ?_) ?_ <;> rw [headKind, hlast] <;> rfl
  exact .statement (fun _ => trivial) fun r _ => .exprStatement hp
    (.assignment (fun _ => trivial) fun r _ => .assign (target r) (by rw [hq]; rfl) rfl (value r))
    (.semicolon hlast)

end Template
end Stencil
