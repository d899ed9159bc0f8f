import Stencil.Proofs.Sheets.Lines

/-!
# Sheets — sheets as runs

The statements of a sheet write to the output what the sheet means (`Sheet.carries`).  This is shown
of each kind of statement by itself, for any statements inside it that write what they mean.
-/

namespace Stencil
open Script Template

section
variable {ρ : Valuation} {names : List String} {out : String} {env : Env} {s t : Store}

/-! ### Statements -/

/-- An expression that only computes a value, before something else. -/
theorem Script.Ground.follows_value (g : Ground ρ names out env s) (hρ : ρ.Given) {e : Expr}
    (hp : e.Plain) (hn : e.uses [] ⊆ names) {α β : Type} {k : Nat → Value → Run β}
    {k' : Value → Run α} {Q : α → β → Scopes → Prop}
    (hk : ∀ v t, v.Given → Ground ρ names out env t → t.scopes = s.scopes →
      Follows (fun n => k n v) t (k' v t) Q) :
    Follows (fun n => eval n e env >>= k n) s ((e.value ρ >>= k') s) Q := by
  have data := Expr.onData_value hρ e
  have value := Expr.settles_value hρ hp (g.toNames.of_subset hn)
  have hgiven := data.given s g.given
  rw [run_bind]
  cases h : e.value ρ s with
  | error e t =>
      rw [h] at value
      exact .error (σ := t.scopes) value.bind_error
  | ok v t =>
      rw [h] at value hgiven
      have hscopes := data.scopes g.given h
      exact .after value (hk v t (data.result s v t g.given h) (g.of_scopes hgiven hscopes) hscopes)

/-- **Statements that write**: from an output they make the output that a computation makes of it,
and change nothing else that was bound before, but for the value written last.  How they end is
`ends`. -/
structure Carries (ends : String → Completion) (ρ : Valuation) (names : List String) (env : Env)
    (m : Nat → Run Completion) (write : String → Run String) : Prop where
  data : ∀ out, OnData (write out) fun _ => True
  follows : ∀ out s, Ground ρ names out env s → Follows m s (write out s)
    fun out' c σ => c = ends out' ∧ Scopes.Later s.scopes out' σ

/-- The end of statements that others can follow. -/
def normally (_ : String) : Completion :=
  .normal

namespace Carries

variable {m : Nat → Run Completion} {write write' : String → Run String}

theorem nil (env : Env) : Carries normally ρ names env (fun n => execAll n [] env) pure where
  data _ := .pure trivial
  follows out s g := .ok ⟨rfl, g.later⟩
    (.succ (m := fun _ => pure .normal) (fun _ => by rw [execAll]) (.const _ s))

theorem cons {first : Stmt} {rest : List Stmt} {ends : String → Completion} {names' : List String}
    (hsub : names' ⊆ names) (hforeign : Foreign names')
    (h : Carries normally ρ names env (fun n => exec n first env) write)
    (h' : Carries ends ρ names' env (fun n => execAll n rest env) write') :
    Carries ends ρ names env (fun n => execAll n (first :: rest) env)
      (fun out => write out >>= write') where
  data out := (h.data out).bind fun out' _ => h'.data out'
  follows out s g := by
    refine .succ (fun _ => by rw [execAll]) (.bind g.given (h.data out) (h.follows out s g)
      (fun out' _ => h'.data out') ?_)
    rintro out' _ t σ g' - ⟨rfl, later⟩
    exact (h'.follows out' _ ((g.of_subset hsub).after hforeign g' later)).imp
      fun _ _ _ h => ⟨h.1, later.trans h.2⟩

/-- The statement of a line. -/
theorem line (line : Line) (hρ : ρ.Given) (hsteady : line.Steady names) (hn : line.names ⊆ names) :
    Carries normally ρ names env (fun n => exec n line.stmt env)
      (fun out => line.write ρ >>= joined out) where
  data out := (line.onData_write hρ).bind fun text _ => onData_joined out text
  follows out s g := by
    have read : Settles (fun _ => (Place.name "__p").read env) s (.ok (.string out) s) :=
      .of_run (g.output.lookUp g.inside)
    have sum : Follows (fun n => eval n line.tree env >>= fun w => operate .add (.string out) w) s
        ((line.write ρ >>= joined out) s) (PutTogether out s) := by
      refine .bind g.given (line.onData_write hρ) (line.follows_tree hρ g hsteady hn)
        (fun text _ => onData_joined out text) ?_
      rintro text _ t σ g' - ⟨rfl, later⟩
      refine (follows_add rfl).imp fun text' w σ' h => ⟨h.1, ?_⟩
      rw [h.2]
      exact later
    have written : Follows (fun n =>
        (eval n line.tree env >>= fun w => operate .add (.string out) w) >>= fun v =>
          (Place.name "__p").write env v >>= fun _ => pure v) s
        ((line.write ρ >>= joined out) s) fun out' _ σ => Scopes.Later s.scopes out' σ := by
      refine sum.before ?_
      rintro out' _ u ⟨rfl, later⟩
      refine ⟨.string out', _, later.putOutput out', ?_⟩
      have put : ((Place.name "__p").write env (.string out') >>= fun _ =>
          pure (Value.string out')) u = .ok (.string out')
            (u.withScopes (Scopes.put u.scopes Scopes.callScope "__p" ⟨.string out', true⟩)) := by
        rw [Place.write, run_bind, later.output.assign g.inside]
        rfl
      exact .of_run put
    have assigned : Follows (fun n => eval n (.assign (some .add) (.name "__p") line.tree) env) s
        ((line.write ρ >>= joined out) s) fun out' _ σ => Scopes.Later s.scopes out' σ := by
      refine .succ (fun _ => by rw [eval]) (.after (settles_place "__p") (.after read ?_))
      simpa only [bind_assoc] using written
    refine .succ (fun _ => by rw [Line.stmt, exec]) (assigned.before fun out' v u later => ?_)
    exact ⟨Completion.normal, u.scopes, ⟨rfl, later⟩, .const (pure Completion.normal) u⟩

theorem block {body : List Stmt} (h : ∀ r, Carries normally ρ names (⟨r, false⟩ :: env)
    (fun n => execAll n body (⟨r, false⟩ :: env)) write) :
    Carries normally ρ names env (fun n => exec n (.block body) env) write where
  data := (h 0).data
  follows out s g := by
    have opened : Settles (fun _ => newScope false env) s
        (.ok (⟨s.scopes.size, false⟩ :: env) (s.withScopes (Scopes.opened s.scopes))) :=
      .of_run (newScope_run false env s)
    have inside := (h s.scopes.size).follows out _ g.opened
    refine .succ (fun _ => by rw [exec]) ?_
    refine .resume opened g.given ((h 0).data out) (inside.imp fun _ _ _ h => ⟨h.1, h.2.of_opened⟩)

theorem branch {test : Phrase} {yes no : Stmt} (hρ : ρ.Given) (hn : test.tree.uses [] ⊆ names)
    (hyes : Carries normally ρ names env (fun n => exec n yes env) write)
    (hno : Carries normally ρ names env (fun n => exec n no env) write') :
    Carries normally ρ names env (fun n => exec n (.branch test.tree yes (some no)) env) fun out => do
      let v ← test.tree.value ρ
      if v.truthy then write out else write' out where
  data out := (Expr.onData_value hρ _).bind fun v _ => by
    split
    · exact hyes.data out
    · exact hno.data out
  follows out s g := by
    refine .succ (fun _ => by rw [exec]) (g.follows_value hρ test.plain hn fun v t _ ground hs => ?_)
    rw [← hs]
    cases hv : v.truthy with
    | true => exact hyes.follows out t ground
    | false => exact hno.follows out t ground

/-! ### Repetitions -/

section
variable {name : LoopName} {body : Stmt} {round : Value → String → Run String}
  {names' : List String} (hforeign : Foreign names) (hname : name.word ∉ ownNames)
  (hnames : ∀ n ∈ names', n = name.word ∨ n ∈ names)
  (h : ∀ (item : Value) r, item.Given → Carries normally (ρ.bind name.word item) names'
    (⟨r, false⟩ :: env) (fun n => exec n body (⟨r, false⟩ :: env)) (round item))
include hforeign hname hnames h

/-- The body is carried out once for each item, with the loop variable bound to it. -/
theorem rounds : ∀ {items : List Value}, (∀ item ∈ items, item.Given) →
    Carries normally ρ names env (fun n => execEach n name.binding items body env)
      (fun out => items.foldlM (fun out item => round item out) out)
  | [], _ => by
      refine ⟨fun _ => .pure trivial, fun out s g => .ok ⟨rfl, g.later⟩ ?_⟩
      exact .succ (m := fun _ => pure .normal) (fun _ => by rw [execEach]) (.const _ s)
  | item :: items, hitems => by
      have hgiven := hitems item List.mem_cons_self
      have others := rounds fun i hi => hitems i (List.mem_cons_of_mem _ hi)
      refine ⟨fun out => ?_, fun out s g => ?_⟩
      · rw [List.foldlM_cons]
        exact ((h item 0 hgiven).data out).bind fun out' _ => others.data out'
      · have opened : Settles (fun _ => bindRound name.binding item env) s
            (.ok (⟨s.scopes.size, false⟩ :: env) (s.withScopes
              (Scopes.put (Scopes.opened s.scopes) s.scopes.size name.word ⟨item, true⟩))) :=
          .of_run rfl
        have first := (h item s.scopes.size hgiven).follows out _ (g.round hname hnames item)
        rw [List.foldlM_cons]
        refine .succ (fun _ => by rw [execEach]) (.resume opened g.given
          (((h item 0 hgiven).data out).bind fun out' _ => others.data out') ?_)
        refine .bind (g.given.withScopes _) ((h item 0 hgiven).data out) first
          (fun out' _ => others.data out') ?_
        rintro out' _ t σ g' - ⟨rfl, later⟩
        have later := later.of_round
        have ground := g.after hforeign g' later
        exact (others.follows out' _ ground).imp fun _ _ _ h => ⟨h.1, later.trans h.2⟩

theorem each {subject : Phrase} (hρ : ρ.Given) (hn : subject.tree.uses [] ⊆ names) :
    Carries normally ρ names env (fun n => exec n (.forOf name.binding subject.tree body) env)
      fun out => do
        let v ← subject.tree.value ρ
        let items ← loopItems v
        items.foldlM (fun out item => round item out) out where
  data out := (Expr.onData_value hρ _).bind fun v hv => (onData_loopItems hv).bind fun items hi =>
    (rounds hforeign hname hnames h hi).data out
  follows out s g := by
    refine .succ (fun _ => by rw [exec]) (g.follows_value hρ subject.plain hn fun v t hv ground hs => ?_)
    have data := onData_loopItems hv
    have hgiven := data.given t ground.given
    have items : Settles (fun _ => loopItems v) t (loopItems v t) := .const _ t
    rw [run_bind, ← hs]
    cases hi : loopItems v t with
    | error e u =>
        rw [hi] at items
        exact .error (σ := u.scopes) items.bind_error
    | ok list u =>
        rw [hi] at items hgiven
        have hscopes := data.scopes ground.given hi
        have carried := rounds hforeign hname hnames h (data.result t list u ground.given hi)
        refine .after items ?_
        rw [← hscopes]
        exact carried.follows out u (ground.of_scopes hgiven hscopes)

end

end Carries

/-! ### Sheets -/

/-- The names that a sheet takes from outside. -/
def Sheet.free : Sheet → List String
  | .line l => l.names
  | .branch l test yes no rest => l.names ++ test.tree.uses [] ++ yes.free ++ no.free ++ rest.free
  | .each l name subject body rest =>
    l.names ++ subject.tree.uses [] ++ body.free.filter (· ≠ name.word) ++ rest.free

theorem Sheet.free_subset_names (sheet : Sheet) : sheet.free ⊆ sheet.names := by
  induction sheet with
  | line l => exact fun _ h => h
  | branch l test yes no rest yes_ih no_ih rest_ih =>
      intro n h
      simp only [free, names, List.mem_append] at h ⊢
      tauto
  | each l name subject body rest body_ih rest_ih =>
      intro n h
      simp only [free, names, List.mem_append, List.mem_cons, List.mem_filter] at h ⊢
      tauto

theorem foreign_of_names {names : List String} (h : ∀ n ∈ names, n ∉ ownNames) :
    Foreign names := by
  intro n hn
  constructor <;> (rintro rfl; exact h _ hn (by decide))

end

theorem Sheet.write_branch (l : Line) (test : Phrase) (yes no rest : Sheet) (ρ : Valuation)
    (out : String) : (Sheet.branch l test yes no rest).write ρ out =
      l.write ρ >>= fun text => joined out text >>= fun out => test.tree.value ρ >>= fun v =>
        (if v.truthy then yes.write ρ out else no.write ρ out) >>= rest.write ρ := by
  rw [write]
  refine congrArg _ (funext fun text => congrArg _ (funext fun out => congrArg _ (funext fun v => ?_)))
  cases v.truthy <;> rfl

/-- **What the statements of a sheet write** is what the sheet means.  Other statements may follow. -/
theorem Sheet.carries (sheet : Sheet) (hn : ∀ n ∈ sheet.names, n ∉ ownNames) :
    ∀ {ends : String → Completion} {ρ : Valuation} {names : List String} {env : Env}
      {rest : List Stmt} {write : String → Run String}, ρ.Given → Foreign names →
      sheet.free ⊆ names → Carries ends ρ names env (fun n => execAll n rest env) write →
      Carries ends ρ names env (fun n => execAll n (sheet.stmts ++ rest) env)
        (fun out => sheet.write ρ out >>= write) := by
  induction sheet with
  | line l =>
      intro ends ρ names env rest write hρ hforeign hsub hrest
      have total := (Carries.line l hρ (.inl hforeign) hsub).cons (fun _ h => h) hforeign hrest
      simp only [bind_assoc] at total
      simpa only [Sheet.write, stmts, bind_assoc, List.singleton_append] using total
  | branch l test yes no sheet yes_ih no_ih sheet_ih =>
      intro ends ρ names env rest write hρ hforeign hsub hrest
      simp only [Sheet.names, List.mem_append] at hn
      simp only [free, List.append_subset] at hsub
      obtain ⟨⟨⟨⟨hl, ht⟩, hyes⟩, hno⟩, hsheet⟩ := hsub
      -- each branch is a block of its own, and what follows runs after either
      have first := fun r => yes_ih (fun n h => hn n (by tauto)) hρ hforeign hyes
        (.nil (⟨r, false⟩ :: env))
      have second := fun r => no_ih (fun n h => hn n (by tauto)) hρ hforeign hno
        (.nil (⟨r, false⟩ :: env))
      have others := sheet_ih (fun n h => hn n (by tauto)) hρ hforeign hsheet hrest
      simp only [List.append_nil, bind_pure] at first second
      have total := (Carries.line l hρ (.inl hforeign) hl).cons (fun _ h => h) hforeign
        ((Carries.branch hρ ht (.block first) (.block second)).cons (fun _ h => h) hforeign others)
      simp only [bind_assoc] at total
      simpa only [write_branch, stmts, bind_assoc, List.cons_append] using total
  | each l name subject body sheet body_ih sheet_ih =>
      intro ends ρ names env rest write hρ hforeign hsub hrest
      simp only [Sheet.names, List.mem_append, List.mem_cons] at hn
      simp only [free, List.append_subset] at hsub
      obtain ⟨⟨⟨hl, hs⟩, hbody⟩, hsheet⟩ := hsub
      have inner : ∀ n ∈ body.free, n = name.word ∨ n ∈ names := fun n h => by
        by_cases hw : n = name.word
        · exact .inl hw
        · exact .inr (hbody (List.mem_filter.mpr ⟨h, by simpa using hw⟩))
      -- the body runs once for each item, with the variable bound to it in a scope of the round
      have foreign : Foreign body.free := foreign_of_names fun n h =>
        hn n (by have := body.free_subset_names h; tauto)
      have round := fun (item : Value) r (hitem : item.Given) r' =>
        body_ih (fun n h => hn n (by tauto)) (hρ.bind name.word hitem) foreign (fun _ h => h)
          (.nil (⟨r', false⟩ :: ⟨r, false⟩ :: env))
      have others := sheet_ih (fun n h => hn n (by tauto)) hρ hforeign hsheet hrest
      simp only [List.append_nil, bind_pure] at round
      have total := (Carries.line l hρ (.inl hforeign) hl).cons (fun _ h => h) hforeign
        ((Carries.each hforeign (hn name.word (by tauto)) inner
          (fun item r hitem => .block (round item r hitem)) hρ hs).cons (fun _ h => h) hforeign others)
      simp only [bind_assoc] at total
      simpa only [Sheet.write, stmts, bind_assoc, List.cons_append] using total

end Stencil
