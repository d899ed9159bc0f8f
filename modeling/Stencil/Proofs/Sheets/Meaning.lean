import Stencil.Proofs.Compile.Entry
import Stencil.Proofs.Compile.Unread
import Stencil.Proofs.Names.Rewrites
import Stencil.Proofs.Sheets.Compiled
import Stencil.Proofs.Sheets.Runs

/-!
# Sheets — the meaning of a compiled sheet

A call of a sheet's function binds the parameters, the members of the data that the sheet names, and
the output; then the statements of the sheet run, and the output is returned.  So a compiled sheet
renders to what the sheet means (`Sheet.render_text`).
-/

namespace Stencil
open Script Template

/-! ### Names -/

namespace Sheet

theorem hoistedNames_stmts (sheet : Sheet) : hoistedNames sheet.stmts = [] := by
  induction sheet with
  | line l => rfl
  | branch l test yes no rest yes_ih no_ih rest_ih =>
      simp [stmts, hoistedNames, Stmt.hoisted, hoistedIn, Line.stmt, yes_ih, no_ih, rest_ih]
  | each l name subject body rest body_ih rest_ih =>
      simp [stmts, hoistedNames, Stmt.hoisted, loopHoisted, LoopName.binding, Line.stmt, body_ih,
        rest_ih]

theorem lexicalNames_stmts (sheet : Sheet) : lexicalNames sheet.stmts = [] := by
  induction sheet with
  | line l => rfl
  | branch l test yes no rest yes_ih no_ih rest_ih => exact rest_ih
  | each l name subject body rest body_ih rest_ih => exact rest_ih

theorem hoistedNames_allStmts (sheet : Sheet) : hoistedNames sheet.allStmts = preludeNames := by
  rw [allStmts, hoistedNames, hoistedNames_append, sheet.hoistedNames_stmts]
  rfl

theorem lexicalNames_allStmts (sheet : Sheet) : lexicalNames sheet.allStmts = [] := by
  have h := sheet.lexicalNames_stmts
  rw [lexicalNames] at h ⊢
  rw [allStmts, List.flatMap_cons, List.flatMap_append, h]
  rfl

end Sheet

theorem Line.names_subset_uses (line : Line) : line.names ⊆ line.stmt.uses [] := by
  have fold : ∀ (segments : List Segment) (left : Expr) (n : String),
      (n ∈ left.uses [] ∨ n ∈ segments.flatMap fun segment => segment.phrase.tree.uses []) →
      n ∈ (segments.foldl Segment.extend left).uses [] := by
    intro segments
    induction segments with
    | nil => intro left n h; simpa using h
    | cons segment segments ih =>
        intro left n h
        refine ih _ n ?_
        simp only [List.flatMap_cons, List.mem_append] at h
        simp only [Segment.extend, Segment.value, Expr.uses, List.mem_append]
        tauto
  intro n h
  rw [stmt, Stmt.uses, Expr.uses]
  exact List.mem_append_right _ (fold _ _ _ (.inr h))

/-- What a sheet takes from outside its statements do. -/
theorem Sheet.free_subset_uses (sheet : Sheet) : sheet.free ⊆ usesBody [] sheet.stmts := by
  induction sheet with
  | line l => 
      intro n h
      exact List.mem_append_left _ (l.names_subset_uses h)
  | branch l test yes no rest yes_ih no_ih rest_ih =>
      intro n h
      simp only [free, List.mem_append] at h
      simp only [stmts, usesBody, Stmt.uses, usesStmt, lexicalNames_stmts, List.append_nil,
        List.mem_append]
      have hl := @Line.names_subset_uses l n
      have hyes := @yes_ih n
      have hno := @no_ih n
      have hrest := @rest_ih n
      tauto
  | each l name subject body rest body_ih rest_ih =>
      intro n h
      simp only [free, List.mem_append, List.mem_filter, decide_eq_true_eq] at h
      simp only [stmts, usesBody, Stmt.uses, lexicalNames_stmts, List.append_nil, List.nil_append,
        List.mem_append]
      have hl := @Line.names_subset_uses l n
      have hrest := @rest_ih n
      have hbody : n ∈ body.free ∧ n ≠ name.word → n ∈ usesBody name.binding.lexical body.stmts :=
        fun hm => (mem_usesBody n _ _).mpr ⟨body_ih hm.1, by
          rw [LoopBinding.lexical, LoopName.binding]
          simpa using hm.2⟩
      tauto

theorem Sheet.mem_freeNames (sheet : Sheet) {n : String} (h : n ∈ sheet.free)
    (hn : n ∉ reservedNames) : n ∈ freeNames (functionOf dataParameter sheet.allStmts) := by
  simp only [reservedNames, List.mem_append, List.mem_cons, List.not_mem_nil, or_false, not_or] at hn
  refine Script.mem_freeNames.mpr ⟨?_, hn.2⟩
  rw [Definition.uses_eq, List.append_nil]
  refine (mem_usesBody n _ _).mpr ⟨?_, fun hb => ?_⟩
  · rw [functionOf, Definition.body, allStmts, usesBody, usesBody_append]
    exact List.mem_append_right _ (List.mem_append_left _ (sheet.free_subset_uses h))
  · rcases Definition.mem_bound.mp hb with hb | hb | hb | hb
    · rw [functionOf, Definition.body, lexicalNames_allStmts] at hb
      cases hb
    · simp only [functionOf, Definition.parameters, Definition.rest, dataParameter,
        Option.toList_none, List.append_nil, List.mem_cons, List.not_mem_nil, or_false] at hb
      tauto
    · cases hb
    · rw [functionOf, Definition.body, hoistedNames_allStmts, preludeNames] at hb
      simp only [List.mem_cons, List.not_mem_nil, or_false] at hb
      tauto

/-! ### Runs -/

theorem Store.members_withHeap (s t : Store) (base : Value) :
    (t.withHeap s).members base = s.members base := by
  funext name
  cases base <;> rfl

theorem given_members {s : Store} (g : s.Given) (base : Value) :
    Valuation.Given (s.members base) := by
  intro name
  rw [Store.members]
  cases h : getProperty base name s with
  | ok v t => exact (onData_getProperty base name).result s v t g h
  | error e t => exact Value.given_undefined

theorem truthy_of_dataObject {v base : Value} {s t : Store} (h : dataObject v s = .ok base t) :
    base.truthy = true := by
  rw [dataObject] at h
  split at h <;> cases h
  · assumption
  · rfl

/-- The statement that comes last gives the output back. -/
theorem carries_returnStatement {ρ : Valuation} {names : List String} {env : Env} :
    Carries (fun out => .return (.string out)) ρ names env
      (fun n => execAll n [returnStatement] env) pure where
  data _ := .pure trivial
  follows out s g := by
    have returned : Settles (fun n => exec n returnStatement env) s
        (.ok (.return (.string out)) s) := by
      refine .succ (fun _ => by rw [returnStatement, exec]) ?_
      exact (settles_name (g.output.lookUp g.inside)).bind_ok
        (.const (pure (Completion.return (.string out))) s)
    refine .ok ⟨rfl, g.later⟩ (.succ (fun _ => by rw [execAll]) (returned.bind_ok ?_))
    exact .const (pure (Completion.return (.string out))) s

/-- What a run has made, apart from the store. -/
def made {α : Type} : Outcome α → Except Stop α
  | .ok a _ => .ok a
  | .error e _ => .error e

theorem Sheet.render_eq_made (sheet : Sheet) {data : Json.Document} {v base : Value} {s t : Store}
    (hdata : importDocument data Store.initial = .ok v s) (hbase : dataObject v s = .ok base t) :
    sheet.render data = made (sheet.write (t.members base) "" t) := by
  have hrun : sheet.run data Store.initial = sheet.write (t.members base) "" t := by
    rw [run, run_bind, hdata]
    dsimp only
    rw [run_bind, hbase]
    rfl
  rw [render, hrun]
  cases sheet.write (t.members base) "" t <;> rfl

/-- Computations on data make the same of the same heap. -/
theorem made_of_heap {α : Type} {m : Run α} {Q : α → Prop} (data : OnData m Q) {s t : Store}
    (g : s.Given) (g' : t.Given) (heap : t.withHeap s = t) : made (m t) = made (m s) := by
  rw [← heap, data.blind s t g g']
  cases m s <;> rfl

theorem sole_callScopes {c : Scope} {name : String} {v : Value} (h : c.get? name = some ⟨v, true⟩)
    (hg : globalScope.get? name = none) : (callScopes c).Sole name v where
  bound := h
  alone r hr := by
    match r with
    | 0 => exact hg
    | 1 => exact absurd rfl hr
    | r + 2 => rfl

/-- **The statements of a template's function**, from the declaration that comes first to the
return. -/
theorem settles_declared {ρ : Valuation} {names : List String} {rest : List Stmt}
    {write : String → Run String}
    (carries : Carries (fun out => .return (.string out)) ρ names callEnv
      (fun n => execAll n rest callEnv) write)
    {c : Scope} {s : Store} (g : s.Given) (hsize : nativeFunctions.length ≤ s.functions.size)
    (hs : s.scopes = callScopes c) (hp : ∀ n ∈ preludeNames, ∃ w, c.get? n = some ⟨w, true⟩)
    (hhelper : c.get? "_" = some ⟨helper, true⟩)
    (hnames : ∀ n ∈ names, Scope.get? ((c.put "__p" ⟨.string "", true⟩).put "print"
      ⟨.function s.functions.size, true⟩) n = some ⟨ρ n, true⟩) :
    ∃ r, Settles (fun n => execAll n (preludeStatement :: rest) callEnv) s r ∧
      returnedText r = made (write "" s) := by
  have prelude := settles_prelude hs hp
  have g' := g.withFunction hsize (.closure writer callEnv)
  -- the store after the declaration is known by its scopes and by what it shares with `s`
  generalize hc : (c.put "__p" ⟨.string "", true⟩).put "print" ⟨.function s.functions.size, true⟩ = c'
    at prelude hnames
  generalize hu : (s.withFunction (.closure writer callEnv)).withScopes (callScopes c') = u at prelude
  have hscopes : u.scopes = callScopes c' := by rw [← hu]; rfl
  have given : u.Given := hu ▸ g'.withScopes _
  have heap : u.withHeap s = u := by rw [← hu]; rfl
  have kept : ∀ n, n ≠ "__p" → n ≠ "print" → c'.get? n = c.get? n := fun n hn hn' => by
    rw [← hc, Scope.get?_put_of_ne hn', Scope.get?_put_of_ne hn]
  have houtput : c'.get? "__p" = some ⟨.string "", true⟩ := by
    rw [← hc, Scope.get?_put_of_ne (by decide), Scope.get?_put_self]
  obtain ⟨last, hlast⟩ := hp "__t" (by decide)
  have ground : Ground ρ names "" callEnv u := {
    given := given
    stands := fun n hn => ⟨_, _, by rw [hscopes]; exact find?_callScopes (hnames n hn)⟩
    inside := ⟨_, List.mem_cons_self, rfl⟩
    below := fun frame hm => by
      rw [hscopes, show (callScopes c').size = 2 from rfl]
      simp only [callEnv, List.mem_cons, List.not_mem_nil, or_false] at hm
      rcases hm with rfl | rfl <;> decide
    output := by
      rw [hscopes]
      exact sole_callScopes houtput rfl
    last := by
      rw [hscopes]
      exact ⟨last, sole_callScopes ((kept _ (by decide) (by decide)).trans hlast) rfl⟩
    helper := ⟨_, _, by
      rw [hscopes]
      exact find?_callScopes ((kept _ (by decide) (by decide)).trans hhelper)⟩ }
  have follows := carries.follows "" u ground
  -- what is written is a computation on data, so it is the same from `u` as from `s`
  rw [← made_of_heap (carries.data "") g given heap]
  cases hw : write "" u with
  | ok text t =>
      rw [hw] at follows
      obtain ⟨_, σ, ⟨rfl, -⟩, settles⟩ := follows
      exact ⟨_, settles_cons prelude settles, rfl⟩
  | error e t =>
      rw [hw] at follows
      obtain ⟨σ, settles⟩ := follows
      exact ⟨_, settles_cons prelude settles, rfl⟩

/-- **The statements of a sheet's function** make what the sheet writes. -/
theorem Sheet.carries_return (sheet : Sheet) (hn : ∀ n ∈ sheet.names, n ∉ ownNames) {ρ : Valuation}
    (hρ : ρ.Given) : Carries (fun out => .return (.string out)) ρ sheet.free callEnv
      (fun n => execAll n (sheet.stmts ++ [returnStatement]) callEnv) (sheet.write ρ) := by
  have foreign := foreign_of_names fun n h => hn n (sheet.free_subset_names h)
  have last : Carries (fun out => .return (.string out)) ρ sheet.free callEnv
      (fun n => execAll n [returnStatement] callEnv) pure := carries_returnStatement
  have all := sheet.carries hn hρ foreign (fun _ h => h) last
  simp only [bind_pure] at all
  exact all

theorem Sheet.declareFunctions_stmts (sheet : Sheet) (env : Env) (rest : List Stmt) :
    declareFunctions env (sheet.stmts ++ rest) = declareFunctions env rest := by
  induction sheet with
  | line l => rfl
  | branch l test yes no rest yes_ih no_ih rest_ih => exact rest_ih
  | each l name subject body rest body_ih rest_ih => exact rest_ih

theorem exists_dataObject (v : Value) (s : Store) : ∃ base t, dataObject v s = .ok base t := by
  rw [dataObject]
  split
  · exact ⟨v, s, rfl⟩
  · exact ⟨_, _, rfl⟩

/-- The variables of a call of a template's function, with the names that its body declares. -/
def entryScope (p : String) (v : Value) (names : List String) : Scope :=
  (parameterScope p v).declared names

theorem get?_entryScope (p : String) (v : Value) (names : List String) (n : String) :
    (entryScope p v names).get? n = 
      if n = "_" then some ⟨helper, true⟩ else if n = p then some ⟨v, true⟩
      else if n ∈ names then some ⟨.undefined, true⟩ else none := by
  rw [entryScope, Scope.get?_declared, parameterScope, Scope.get?_put, Scope.get?, List.lookup_cons]
  by_cases hn : n = "_"
  · simp [hn]
  · by_cases hp : n = p
    · subst hp
      simp [hn]
    · have hne : (n == p) = false := by simp [hp]
      simp [hn, hp, hne]

/-- Where the body of a call from outside begins. -/
theorem start_of_import {data : Json.Document} {v : Value} {s : Store}
    (h : importDocument data Store.initial = .ok v s) (c : Scope) :
    v.Given ∧ s.Given ∧ ((s.withDepth 1).withScopes (callScopes c)).Given ∧
      nativeFunctions.length ≤ s.functions.size := by
  have data := onData_importDocument data
  have g := data.given _ given_initial
  rw [h] at g
  refine ⟨data.result _ v s given_initial h, g, (g.withDepth 1).withScopes _, ?_⟩
  rw [(importDocument_initial h).2.1]
  exact Nat.le_refl _

/-- **A call of a function that binds members**, by the run of the statements after these. -/
theorem apply_bound {p : String} (hp : p ≠ "_") {names : List String} {rest : List Stmt}
    {data : Json.Document} {v : Value} {s : Store}
    (hdata : importDocument data Store.initial = .ok v s)
    (hnames : freeNames (functionOf p rest) = names)
    (hfunctions : declareFunctions callEnv rest = pure ()) {base : Value} {t : Store}
    (hbase : dataObject v s = .ok base t) {r : Outcome Completion}
    (hrest : Settles (fun n => execAll n rest callEnv)
      (((s.withDepth 1).withHeap t).withScopes (callScopes (((entryScope p v
        (names ++ hoistedNames rest)).put p ⟨base, true⟩).membered (t.members base) names))) r) :
    ∃ enough, ∀ n, enough ≤ n → (boundFunction p rest).apply n data = returnedText r := by
  obtain ⟨hv, g, g', -⟩ := start_of_import hdata (entryScope p v (names ++ hoistedNames rest))
  have hhoisted : hoistedNames (bindingStatements p names ++ rest) = names ++ hoistedNames rest := by
    rw [hoistedNames_append, Link.hoistedNames_bindings]
  rw [boundFunction, hnames]
  refine Script.apply_eventually hdata (by rw [Link.declareFunctions_bindings, hfunctions]) ?_
  rw [hhoisted]
  generalize hs' : (s.withDepth 1).withScopes (callScopes (entryScope p v (names ++ hoistedNames rest)))
    = s' at g'
  -- the base is made in the call as it is made outside, on the heap alone
  have hbase' : dataObject v s' = .ok base (s'.withHeap t) := by
    have heap : s'.withHeap s = s' := by rw [← hs']; rfl
    rw [← heap, (onData_dataObject hv).blind s s' g g', hbase]
    rfl
  have entered := get?_entryScope p v (names ++ hoistedNames rest)
  have bound : Scope.get? (entryScope p v (names ++ hoistedNames rest)) p = some ⟨v, true⟩ := by
    rw [entered, if_neg hp, if_pos rfl]
  show Settles _ ((s.withDepth 1).withScopes (callScopes (entryScope p v _))) r
  rw [hs']
  refine settles_bindings (truthy_of_dataObject hbase) g' (by rw [← hs']; rfl) bound hv hbase'
    (fun n hm => ⟨ne_parameter_of_mem_freeNames (hnames ▸ hm), ?_⟩) ?_
  · rw [entered]
    split
    · exact ⟨_, rfl⟩
    · split
      · exact ⟨_, rfl⟩
      · rw [if_pos (List.mem_append_left _ hm)]
        exact ⟨_, rfl⟩
  · rw [Store.members_withHeap, ← hs']
    exact hrest

theorem ownNames_subset : ownNames ⊆ reservedNames := by
  decide

/-- A call of a sheet's function. -/
theorem Sheet.apply_eventually (sheet : Sheet) (hn : ∀ n ∈ sheet.names, n ∉ reservedNames)
    (data : Json.Document) : ∃ enough, ∀ n, enough ≤ n →
      (boundFunction dataParameter sheet.allStmts).apply n data = sheet.render data := by
  cases hdata : importDocument data Store.initial with
  | error e s =>
      refine ⟨0, fun n _ => ?_⟩
      simp only [Definition.apply, callWith, run_bind, hdata, render, run]
  | ok v s =>
      obtain ⟨base, t, hbase⟩ := exists_dataObject v s
      obtain ⟨-, g, -, hsize⟩ := start_of_import hdata []
      have gt : t.Given := by
        have hv := (onData_importDocument data).result _ v s given_initial hdata
        have h := (onData_dataObject hv).given s g
        rwa [hbase] at h
      have hfree : ∀ n ∈ sheet.free, n ∉ reservedNames := fun n h => hn n (sheet.free_subset_names h)
      have hown : ∀ n ∈ sheet.names, n ∉ ownNames := fun n h hm =>
        hn n h (ownNames_subset hm)
      have carries := sheet.carries_return hown (given_members gt base)
      -- `c` is the scope that the sheet runs in: what it takes from the data stands before all else
      generalize hnames : freeNames (functionOf dataParameter sheet.allStmts) = names
      generalize hc : ((entryScope dataParameter v (names ++ hoistedNames sheet.allStmts)).put
        dataParameter ⟨base, true⟩).membered (t.members base) names = c
      have bound : ∀ n, c.get? n = if n ∈ names then some ⟨t.members base n, true⟩
          else if n = dataParameter then some ⟨base, true⟩
          else (entryScope dataParameter v (names ++ hoistedNames sheet.allStmts)).get? n :=
        fun n => by rw [← hc, Scope.get?_membered, Scope.get?_put]
      have hhelper : "_" ∉ names := fun h => (Script.mem_freeNames.mp (hnames ▸ h)).2 (by decide)
      have prelude : ∀ n ∈ preludeNames, ∃ w, c.get? n = some ⟨w, true⟩ := fun n hm => by
        have hne : n ≠ dataParameter ∧ n ≠ "_" := by revert n; decide
        rw [bound]
        split
        · exact ⟨_, rfl⟩
        · rw [if_neg hne.1, get?_entryScope, if_neg hne.2, if_neg hne.1,
            if_pos (List.mem_append_right _ (sheet.hoistedNames_allStmts ▸ hm))]
          exact ⟨_, rfl⟩
      have helper : c.get? "_" = some ⟨helper, true⟩ := by
        rw [bound, if_neg hhelper, if_neg (by decide), get?_entryScope, if_pos rfl]
      have stands : ∀ f, ∀ n ∈ sheet.free, Scope.get? ((c.put "__p" ⟨.string "", true⟩).put "print"
          ⟨.function f, true⟩) n = some ⟨t.members base n, true⟩ := fun f n hm => by
        have hne := fun word (hw : word ∈ reservedNames) (he : n = word) => hfree n hm (he ▸ hw)
        rw [Scope.get?_put_of_ne (hne _ (by decide)), Scope.get?_put_of_ne (hne _ (by decide)), bound,
          if_pos (hnames ▸ sheet.mem_freeNames hm (hfree n hm))]
      obtain ⟨r, settles, hr⟩ := settles_declared carries
        (s := ((s.withDepth 1).withHeap t).withScopes (callScopes c)) (c := c)
        ((gt.withHeap (g.withDepth 1)).withScopes _) hsize rfl prelude helper (stands _)
      obtain ⟨enough, h⟩ := apply_bound (by decide) hdata hnames
        (sheet.declareFunctions_stmts callEnv [returnStatement]) hbase (hc.symm ▸ settles)
      refine ⟨enough, fun n hle => (h n hle).trans (hr.trans ?_)⟩
      have same := made_of_heap (t := ((s.withDepth 1).withHeap t).withScopes (callScopes c))
        (carries.data "") gt ((gt.withHeap (g.withDepth 1)).withScopes _) rfl
      exact same.trans (sheet.render_eq_made hdata hbase).symm

/-- **What a compiled sheet renders to** is what the sheet means. -/
theorem Sheet.render_text (sheet : Sheet) (hn : ∀ n ∈ sheet.names, n ∉ reservedNames) :
    (∃ pos generated, Template.compile .standard sheet.text =
      .error (.generation ⟨.nestingTooDeep, pos⟩ generated)) ∨
    ∃ t, Template.compile .standard sheet.text = .ok t ∧
      ∀ data, ∃ enough, ∀ steps, enough ≤ steps → t.render steps data = sheet.render data := by
  refine sheet.compile_text.imp_right fun ⟨t, ht, hfunction⟩ => ⟨t, ht, fun data => ?_⟩
  simp only [Template.render, hfunction]
  exact sheet.apply_eventually hn data

/-- The text of a name. -/
theorem Script.Expresses.name {text word : String} (room : Nat)
    (h : ((Parser.runOn (Parser.wholeExpr room) text).toOption.bind Expr.name?) = some word) :
    Expresses text (.name word) := by
  refine ⟨room, ?_⟩
  cases hrun : Parser.runOn (Parser.wholeExpr room) text with
  | error e =>
      rw [hrun] at h
      cases h
  | ok e =>
      rw [hrun] at h
      cases e <;> cases h
      rfl

/-- The list of an example. -/
def listPhrase : Phrase where
  text := " list"
  tree := .name "list"
  expresses := .name 9 (by decide +kernel)
  plain := trivial
  closed := CommentsEnd.not_open (by decide +kernel)
  unmarked := by decide +kernel

/-- One of its items. -/
def itemPhrase : Phrase where
  text := " item "
  tree := .name "item"
  expresses := .name 9 (by decide +kernel)
  plain := trivial
  closed := CommentsEnd.not_open (by decide +kernel)
  unmarked := by decide +kernel

/-- A text as it stands. -/
def plainLine (text : String) (h : Avoids '<' '%' text.toList) : Line :=
  ⟨⟨text, h⟩, []⟩

/-- A sheet that goes over a list, and tells items that count as false from others. -/
def listSheet : Sheet :=
  .each (plainLine "[" (by decide +kernel)) ⟨"item", by decide +kernel⟩ listPhrase
    (.branch ⟨⟨"<", by decide +kernel⟩, [⟨true, itemPhrase, ⟨">", by decide +kernel⟩⟩]⟩ itemPhrase
      (.line (plainLine "!" (by decide +kernel))) (.line (plainLine "?" (by decide +kernel)))
      (.line (plainLine "" (by decide +kernel))))
    (.line (plainLine "]" (by decide +kernel)))

/-- `listSheet` for a list with an ampersand, an empty text and nothing in it. -/
theorem render_listSheet : (∀ n ∈ listSheet.names, n ∉ reservedNames) ∧
    ∃ t, Template.compile .standard listSheet.text = .ok t ∧ ∃ enough, ∀ steps, enough ≤ steps →
      t.render steps (.object [("list", .array [.string "&", .string "", .null])]) =
        .ok "[<&amp;>!<>?<>?]" := by
  have hn : ∀ n ∈ listSheet.names, n ∉ reservedNames := by decide +kernel
  have hmeans : listSheet.render (.object [("list", .array [.string "&", .string "", .null])]) =
      .ok "[<&amp;>!<>?<>?]" := by decide +kernel
  have hread : (Template.readBody (Template.bodyChars
      (Template.pieces .standard listSheet.text))).toOption.map (fun _ => ()) = some () := by
    decide +kernel
  obtain ⟨stmts, source, -, -, hcompiles, -⟩ := Template.compile_of_readBody hread rfl
  rcases Sheet.render_text listSheet hn with ⟨pos, generated, h⟩ | ⟨t, ht, h⟩
  · rw [h] at hcompiles
    cases hcompiles
  · obtain ⟨enough, h⟩ := h (.object [("list", .array [.string "&", .string "", .null])])
    exact ⟨hn, t, ht, enough, fun steps hle => (h steps hle).trans hmeans⟩

end Stencil
