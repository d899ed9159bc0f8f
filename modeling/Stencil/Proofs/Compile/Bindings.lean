import Stencil.Proofs.Grammar.Whole
import Stencil.Proofs.Tokens.Words
import Stencil.Template.Compile

/-!
# Compile — the bindings of members

The statements that `Template.bindings` writes before a body, as text, as tokens and as trees.  They
parse whatever the names are, and the body after them parses as it does alone
(`parseBody_bindings`).
-/

namespace Stencil
open Script Script.Parser

namespace Template

/-! ### Tokens -/

/-- The tokens of `p = p || {};`. -/
def defaultMarks (p : String) : List Mark :=
  [(.name p, false), (.sign .assign, false), (.name p, false), (.sign .or, false),
   (.sign .openBrace, false), (.sign .closeBrace, false), (.sign .semicolon, false)]

/-- The tokens of `n = p.n`. -/
def memberMarks (p n : String) : List Mark :=
  [(.name n, false), (.sign .assign, false), (.name p, false), (.sign .dot, false), (.name n, false)]

/-- The tokens of bindings of names, after the keyword. -/
def membersMarks (p : String) : List String → List Mark
  | [] => [(.sign .semicolon, false)]
  | [n] => memberMarks p n ++ [(.sign .semicolon, false)]
  | n :: names => memberMarks p n ++ (.sign .comma, false) :: membersMarks p names

/-- The tokens of all bindings. -/
def bindingMarks (p : String) (names : List String) : List Mark :=
  defaultMarks p ++ if names.isEmpty then [] else (.keyword .var, true) :: membersMarks p names

theorem reads_default {p : String} (hp : isName p = true) (rest : List Char) :
    Reads ((p ++ " = " ++ p ++ " || \x7b\x7d;\n").toList ++ rest) (defaultMarks p)
      ('\n' :: rest) := by
  have hname : ∀ rest : List Char, Next (p.toList ++ ' ' :: rest) (.name p, false) (' ' :: rest) :=
    fun rest => .name hp fun c hc => by cases hc; decide
  simp only [String.toList_append, List.append_assoc]
  refine .cons rfl (hname _) (.cons rfl (.space (.sign .assign (endsSign_space _))) ?_)
  refine .cons rfl (.space (hname _)) (.cons rfl (.space (.sign .or (endsSign_space _))) ?_)
  refine .cons rfl (.space (.sign .openBrace (r := '\x7d' :: ';' :: '\n' :: rest) ?_)) ?_
  · intro c hc; cases hc; decide
  refine .cons rfl (.sign .closeBrace (r := ';' :: '\n' :: rest) ?_) ?_
  · intro c hc; cases hc; decide
  refine .cons rfl (.sign .semicolon (r := '\n' :: rest) ?_) .nil
  intro c hc; cases hc; decide

theorem reads_member {p n : String} (hp : isName p = true) (hn : isName n = true)
    {rest : List Char} (hrest : ∀ c ∈ rest.head?, isNamePart c = false) :
    Reads ((n ++ " = " ++ p ++ "." ++ n).toList ++ rest) (memberMarks p n) rest := by
  simp only [String.toList_append, List.append_assoc]
  refine .cons rfl (.name hn fun c hc => by cases hc; decide) ?_
  refine .cons rfl (.space (.sign .assign (endsSign_space _))) ?_
  refine .cons rfl (.space (.name hp fun c hc => by cases hc; decide)) ?_
  exact .cons rfl (.sign .dot (endsSign_name hn _)) (.cons rfl (.name hn hrest) .nil)

/-- The text of bindings of names, after the keyword. -/
def membersText (p : String) (names : List String) : String :=
  ", ".intercalate (names.map fun n => n ++ " = " ++ p ++ "." ++ n) ++ ";\n"

theorem membersText_cons (p n n' : String) (names : List String) :
    (membersText p (n :: n' :: names)).toList =
      (n ++ " = " ++ p ++ "." ++ n).toList ++ (", ".toList ++ (membersText p (n' :: names)).toList) := by
  simp only [membersText, List.map_cons, String.intercalate_cons_cons, String.toList_append,
    List.append_assoc]

theorem reads_semicolon (rest : List Char) :
    Reads (";\n".toList ++ rest) [(.sign .semicolon, false)] ('\n' :: rest) :=
  .cons rfl (.sign .semicolon (r := '\n' :: rest) fun c hc => by cases hc; decide) .nil

theorem reads_members {p : String} (hp : isName p = true) {names : List String}
    (hn : ∀ n ∈ names, isName n = true) (rest : List Char) :
    Reads (' ' :: ((membersText p names).toList ++ rest)) (membersMarks p names)
      ('\n' :: rest) := by
  induction names with
  | nil => exact (reads_semicolon rest).space
  | cons n names ih =>
      have hword := hn n List.mem_cons_self
      cases names with
      | nil =>
          simp only [membersText, List.map_cons, List.map_nil, String.intercalate_singleton]
          rw [String.toList_append, List.append_assoc]
          refine Reads.space ((reads_member hp hword fun c hc => ?_).append (reads_semicolon rest))
          cases hc
          decide
      | cons n' names =>
          have others := ih fun m hm => hn m (List.mem_cons_of_mem _ hm)
          rw [membersText_cons, List.append_assoc, List.append_assoc]
          refine Reads.space ((reads_member hp hword fun c hc => ?_).append
            (.cons rfl (.sign .comma (endsSign_space _)) others))
          cases hc
          decide

/-- **The bindings as tokens.** -/
theorem reads_bindings {p : String} (hp : isName p = true) {names : List String}
    (hn : ∀ n ∈ names, isName n = true) (rest : List Char) :
    Reads ((bindings p names).toList ++ rest) (bindingMarks p names) ('\n' :: rest) := by
  rw [bindings, bindingMarks, String.toList_append, List.append_assoc]
  refine (reads_default hp _).append ?_
  cases h : names.isEmpty with
  | true => exact .nil
  | false =>
      have var := Next.word (c := 'v') (l := ['a', 'r'])
        (r := ' ' :: ((membersText p names).toList ++ rest)) (by decide) (by decide)
        fun c hc => by cases hc; decide
      have htext : ("var " ++ ", ".intercalate (names.map fun n => n ++ " = " ++ p ++ "." ++ n)
          ++ ";\n").toList ++ rest = 'v' :: ['a', 'r'] ++ ' ' :: ((membersText p names).toList ++ rest) := by
        simp only [membersText, String.toList_append, List.append_assoc]
        rfl
      simp only [Bool.false_eq_true, if_false]
      rw [htext]
      exact .cons rfl var.newline (reads_members hp hn rest)

/-! ### Trees -/

/-- `p = p || {};` -/
def defaultStatement (p : String) : Stmt :=
  .expr (.assign none (.name p) (.logical .or (.name p) (.object [])))

/-- `n = p.n` -/
def memberBinding (p n : String) : String × Option Expr :=
  (n, some (.member (.name p) n))

/-- The statements that bind names to the members of `p`. -/
def bindingStatements (p : String) (names : List String) : List Stmt :=
  defaultStatement p ::
    if names.isEmpty then [] else [.declare .var (names.map (memberBinding p))]

/-- The kinds of some tokens. -/
def kinds (ts : List Token) : List TokenKind :=
  ts.map Token.kind

theorem kinds_of_marks {ts : List Token} {ms : List Mark} (h : ts.map Token.mark = ms) :
    kinds ts = ms.map Prod.fst := by
  rw [← h, List.map_map]
  rfl

theorem gives_default {p : String} {bs rest : List Token} {n r : Nat} {inLoop : Bool}
    (h : kinds bs = (defaultMarks p).map Prod.fst) (hn : 0 < n) :
    Gives False ((levels n (r + 4)).statement inLoop) (bs ++ rest) (defaultStatement p) rest := by
  obtain ⟨n, rfl⟩ : ∃ m, n = m + 1 := ⟨n - 1, by omega⟩
  obtain ⟨t₁, bs, rfl, h₁, h⟩ := List.map_eq_cons_iff.mp h
  obtain ⟨t₂, bs, rfl, h₂, h⟩ := List.map_eq_cons_iff.mp h
  obtain ⟨t₃, bs, rfl, h₃, h⟩ := List.map_eq_cons_iff.mp h
  obtain ⟨t₄, bs, rfl, h₄, h⟩ := List.map_eq_cons_iff.mp h
  obtain ⟨t₅, bs, rfl, h₅, h⟩ := List.map_eq_cons_iff.mp h
  obtain ⟨t₆, bs, rfl, h₆, h⟩ := List.map_eq_cons_iff.mp h
  obtain ⟨t₇, bs, rfl, h₇, h⟩ := List.map_eq_cons_iff.mp h
  obtain rfl := List.map_eq_nil_iff.mp h
  have ends₂ : EndsOperand t₂.kind := by rw [h₂]; decide
  have ends₄ : EndsOperand t₄.kind := by rw [h₄]; decide
  have ends₇ : EndsExpr t₇.kind := by rw [h₇]; exact endsExpr_sign (by decide)
  -- a target is read as a conditional first, which stops before the sign of assignment
  have target : Gives False (conditional (levels (n + 1) (r + 2)) (n + 1))
      (t₁ :: t₂ :: t₃ :: t₄ :: t₅ :: t₆ :: t₇ :: rest) (.name p)
      (t₂ :: t₃ :: t₄ :: t₅ :: t₆ :: t₇ :: rest) := by
    have hname : Gives False (infixed (levels (n + 1) (r + 2)) (n + 1) 0)
        (t₁ :: t₂ :: t₃ :: t₄ :: t₅ :: t₆ :: t₇ :: rest) (.name p)
        (t₂ :: t₃ :: t₄ :: t₅ :: t₆ :: t₇ :: rest) := .nameOperand h₁ ends₂
    refine .conditional (hname.infixed (fun k _ => ?_) (Nat.zero_le _)) ?_ <;> rw [headKind, h₂] <;> rfl
  have fallback : Gives False (infixed (levels (n + 1) (r + 1)) (n + 1) 5)
      (t₅ :: t₆ :: t₇ :: rest) (.object []) (t₇ :: rest) := by
    have hempty : Gives False (infixed (levels (n + 1) (r + 1)) (n + 1) 0)
        (t₅ :: t₆ :: t₇ :: rest) (.object []) (t₇ :: rest) := by
      refine .unaryBody ?_ ?_ ?_ (.postfixed (.primaryEmptyObject h₅ h₆ hn)
        (.suffixesDone ends₇.operand) ends₇.operand) <;> rw [headKind, h₅] <;> rfl
    exact hempty.infixed (fun k _ => ends₇.infix_ _) (Nat.zero_le _)
  have value : Gives False (levels (n + 1) (r + 2)).assignment
      (t₃ :: t₄ :: t₅ :: t₆ :: t₇ :: rest) (.logical .or (.name p) (.object [])) (t₇ :: rest) := by
    have hleft : Gives False (infixed (levels (n + 1) (r + 1)) (n + 1) 5)
        (t₃ :: t₄ :: t₅ :: t₆ :: t₇ :: rest) (.name p) (t₄ :: t₅ :: t₆ :: t₇ :: rest) := by
      have hname : Gives False (infixed (levels (n + 1) (r + 1)) (n + 1) 0)
          (t₃ :: t₄ :: t₅ :: t₆ :: t₇ :: rest) (.name p) (t₄ :: t₅ :: t₆ :: t₇ :: rest) :=
        .nameOperand h₃ ends₄
      refine hname.infixed (fun k hk => ?_) (Nat.zero_le _)
      rw [headKind, h₄]
      exact (show ∀ k < 5, infixOfStrength (7 - k) (.sign .or) = none by decide) k hk
    have hor : Gives False (infixed (levels (n + 1) (r + 1)) (n + 1) 6)
        (t₃ :: t₄ :: t₅ :: t₆ :: t₇ :: rest) (.logical .or (.name p) (.object [])) (t₇ :: rest) :=
      hleft.bind (.chainStep _ (by rw [h₄]; rfl) fallback (.chainDone (ends₇.infix_ _)))
    exact .assignmentBody (.conditional (hor.infixed (fun k _ => ends₇.infix_ _) (by decide))
      ends₇.choice) ends₇.assign
  exact .exprStatement h₁ (.assign target (by rw [h₂]; rfl) rfl value) (.semicolon h₇)

theorem gives_member {p w : String} {bs rest : List Token} {n r : Nat}
    (h : kinds bs = (memberMarks p w).map Prod.fst) (hn : 0 < n) (hr : EndsExpr (headKind rest)) :
    Gives False (binding (levels n (r + 2)) .var) (bs ++ rest) (memberBinding p w) rest := by
  obtain ⟨n, rfl⟩ : ∃ m, n = m + 1 := ⟨n - 1, by omega⟩
  obtain ⟨t₁, bs, rfl, h₁, h⟩ := List.map_eq_cons_iff.mp h
  obtain ⟨t₂, bs, rfl, h₂, h⟩ := List.map_eq_cons_iff.mp h
  obtain ⟨t₃, bs, rfl, h₃, h⟩ := List.map_eq_cons_iff.mp h
  obtain ⟨t₄, bs, rfl, h₄, h⟩ := List.map_eq_cons_iff.mp h
  obtain ⟨t₅, bs, rfl, h₅, h⟩ := List.map_eq_cons_iff.mp h
  obtain rfl := List.map_eq_nil_iff.mp h
  have value : Gives False (levels (n + 1) (r + 1)).unary (t₃ :: t₄ :: t₅ :: rest)
      (.member (.name p) w) rest :=
    .unaryName h₃ (.suffixesMember h₄ h₅ (.suffixesDone hr.operand)) hr.operand
  exact .binding h₁ h₂ (value.operand hr)

theorem gives_members {p : String} {names : List String} (hne : names ≠ []) {bs rest : List Token}
    {n r bound : Nat} (h : kinds bs = (membersMarks p names).map Prod.fst) (hn : 0 < n)
    (hb : names.length ≤ bound) : ∃ t : Token, t.kind = .sign .semicolon ∧
      Gives False (Parser.bindings (levels n (r + 2)) .var bound) (bs ++ rest)
        (names.map (memberBinding p)) (t :: rest) := by
  induction names generalizing bs bound with
  | nil => exact absurd rfl hne
  | cons w names ih =>
      obtain ⟨bound, rfl⟩ : ∃ b, bound = b + 1 := ⟨bound - 1, by simp only [List.length_cons] at hb; omega⟩
      cases names with
      | nil =>
          rw [membersMarks, List.map_append] at h
          obtain ⟨bs, last, rfl, hw, hlast⟩ := List.map_eq_append_iff.mp h
          obtain ⟨t, rfl, ht⟩ := List.map_eq_singleton_iff.mp hlast
          refine ⟨t, ht, ?_⟩
          have ends : EndsExpr (headKind (t :: rest)) := by
            rw [headKind, ht]
            exact endsExpr_sign (by decide)
          rw [List.append_assoc]
          exact .bindingsLast (gives_member hw hn ends) (by rw [headKind, ht]; rfl)
      | cons w' names =>
          rw [membersMarks, List.map_append] at h
          · obtain ⟨bs, more, rfl, hw, hmore⟩ := List.map_eq_append_iff.mp h
            obtain ⟨c, more, rfl, hc, hmore⟩ := List.map_eq_cons_iff.mp hmore
            obtain ⟨t, ht, others⟩ := ih (List.cons_ne_nil _ _) hmore (Nat.le_of_succ_le_succ hb)
            refine ⟨t, ht, ?_⟩
            have ends : EndsExpr (headKind (c :: (more ++ rest))) := by
              rw [headKind, hc]
              exact endsExpr_sign (by decide)
            rw [List.append_assoc]
            exact .bindingsCons (gives_member hw hn ends) hc others
          · intro h
            cases h

/-- **The bindings as trees**, before other statements. -/
theorem gives_bindings {p : String} {names : List String} {bs rest after : List Token}
    {others : List Stmt} {n r rounds : Nat} {inLoop : Bool}
    (h : kinds bs = (bindingMarks p names).map Prod.fst) (hn : 0 < n) (hb : names.length ≤ n)
    (ho : Gives False (statements (levels n (r + 4)) inLoop rounds) rest others after) :
    Gives False
      (statements (levels n (r + 4)) inLoop (rounds + (bindingStatements p names).length))
      (bs ++ rest) (bindingStatements p names ++ others) after := by
  rw [bindingMarks, List.map_append] at h
  obtain ⟨first, more, rfl, hfirst, hmore⟩ := List.map_eq_append_iff.mp h
  have hhead : ∀ ts, ((headKind (first ++ ts)).isSign .closeBrace ||
      (headKind (first ++ ts)).isStop) = false := by
    intro ts
    obtain ⟨t, first, rfl, ht, -⟩ := List.map_eq_cons_iff.mp hfirst
    rw [List.cons_append, headKind, ht]
    rfl
  rw [List.append_assoc]
  cases hnames : names.isEmpty with
  | true =>
      rw [hnames] at hmore
      obtain rfl := List.map_eq_nil_iff.mp hmore
      simp only [bindingStatements, hnames, if_true]
      exact .statementsCons (hhead _) (gives_default hfirst hn) ho
  | false =>
      rw [hnames] at hmore
      obtain ⟨v, more, rfl, hv, hmore⟩ := List.map_eq_cons_iff.mp hmore
      have hne : names ≠ [] := by
        rintro rfl
        cases hnames
      obtain ⟨t, ht, members⟩ := @gives_members p names hne more rest n (r + 1) n hmore hn hb
      have declare : Gives False ((levels n (r + 4)).statement inLoop) (v :: more ++ rest)
          (.declare .var (names.map (memberBinding p))) rest :=
        .declareStatement hv rfl members (.semicolon ht)
      simp only [bindingStatements, hnames, Bool.false_eq_true, if_false]
      refine .statementsCons (hhead _) (gives_default hfirst hn) (.statementsCons ?_ declare ho)
      rw [List.cons_append, headKind, hv]
      rfl

/-! ### Parsing -/

theorem length_membersMarks (p : String) :
    ∀ names : List String, names.length ≤ (membersMarks p names).length
  | [] => Nat.zero_le _
  | [_] => by simp [membersMarks]
  | _ :: w :: names => by
      have := length_membersMarks p (w :: names)
      simp only [membersMarks, List.length_append, List.length_cons] at this ⊢
      omega

theorem length_bindingMarks (p : String) (names : List String) :
    names.length ≤ (bindingMarks p names).length ∧
      (bindingStatements p names).length ≤ (bindingMarks p names).length := by
  have hm := length_membersMarks p names
  cases names with
  | nil => exact ⟨Nat.zero_le _, by simp [bindingStatements, bindingMarks, defaultMarks]⟩
  | cons w names =>
      simp only [bindingMarks, bindingStatements, defaultMarks, List.isEmpty_cons,
        Bool.false_eq_true, if_false, List.length_append, List.length_cons, List.length_nil]
        at hm ⊢
      omega

/-- **Bindings never break a body.** -/
theorem parseBody_bindings {p body : String} {names : List String} {stmts : List Stmt}
    {rest : List Char} (hp : isName p = true) (hn : ∀ n ∈ names, isName n = true)
    (hvar : Next body.toList (.keyword .var, false) rest) (h : parseBody body = .ok stmts) :
    parseBody (bindings p names ++ body) = .ok (bindingStatements p names ++ stmts) := by
  obtain ⟨ts, htokens, hwhole⟩ := parseBody_eq_ok.mp h
  obtain ⟨ms, after, newline, hr, hover, hts⟩ := tokens_var htokens hvar
  obtain ⟨t, ts, rfl, ht, hts⟩ := List.map_eq_cons_iff.mp hts
  have hreads : Reads (bindings p names ++ body).toList
      (bindingMarks p names ++ ((.keyword .var, true) :: ms)) after := by
    rw [String.toList_append]
    exact (reads_bindings hp hn _).append hr.newline
  obtain ⟨us, hus, hmarks⟩ := tokens_of_reads hreads hover
  rw [List.append_assoc] at hmarks
  obtain ⟨bs, vs, rfl, hbs, hvs⟩ := List.map_eq_append_iff.mp hmarks
  obtain ⟨v, vs, rfl, hv, hvs⟩ := List.map_eq_cons_iff.mp hvs
  obtain ⟨vs, last, rfl, hms, hlast⟩ := List.map_eq_append_iff.mp hvs
  obtain ⟨w, rfl, hw⟩ := List.map_eq_singleton_iff.mp hlast
  have hwkind : w.kind = .stop := congrArg Prod.fst hw
  -- the body was parsed on its own up to its stop, and is parsed there again after the bindings
  let C : Ending := ⟨w, [], by rw [hwkind]; trivial, False⟩
  have hsound : ∀ m ∈ ms, m.1.isStop = false ∧ m.1.Sound :=
    fun m hm => hr.sound m (List.mem_cons_of_mem _ hm)
  have hbound : names.length ≤ bs.length ∧ (bindingStatements p names).length ≤ bs.length := by
    have := length_bindingMarks p names
    rwa [← hbs, List.length_map] at this
  have hus' : (bs ++ v :: (vs ++ [w])).length = bs.length + ms.length + 2 := by
    rw [← hms, List.length_map]
    simp only [List.length_append, List.length_cons, List.length_nil]
    omega
  have hbody := @Whole.elsewhere_var _ v _ vs _ _ _ hwhole (congrArg Prod.fst ht) hts hsound
    (congrArg Prod.fst hv) hms C (Ending.endsBlock_of_stop hwkind) id
    (bs ++ v :: (vs ++ [w])).length
    ((bs ++ v :: (vs ++ [w])).length - (bindingStatements p names).length) (by omega) (by omega)
  have hall := gives_bindings (kinds_of_marks hbs) (by rw [hus']; omega) (by rw [hus']; omega)
    (.of_run hbody)
  rw [Nat.sub_add_cancel (by rw [hus']; omega)] at hall
  exact parseBody_eq_ok.mpr ⟨_, hus, w, hwkind, hall.run⟩

end Template

end Stencil
