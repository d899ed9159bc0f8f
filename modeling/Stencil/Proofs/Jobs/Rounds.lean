import Stencil.Proofs.Jobs.Activations
import Stencil.Proofs.Jobs.Bypasses

/-!
# Jobs — rounds of loops

A loop over items whose header declares its variable binds it anew for every round, in a scope of the
round's own.  A loop with a header of three parts has one scope for all its rounds.

* `bindRound_own`: a round begins with its variable in a new scope.
* `rounds_bind_anew`: the variable of a round stays as its body leaves it, and those of a loop with a
  header of three parts as the whole loop leaves them.
-/

namespace Stencil.Script

/-- Whether a loop binds its variable anew for every round. -/
def LoopBinding.Own (binding : LoopBinding) : Prop :=
  binding.kind = some .let ∨ binding.kind = some .const

section
variable {binding : LoopBinding} (h : binding.Own) (item : Value) (env : Env) (s : Store)
include h

/-- A round binds the variable in a scope that it opens. -/
theorem bindRound_own : ∃ t, bindRound binding item env s = .ok (⟨s.scopes.size, false⟩ :: env) t ∧
    t.scopes.size = s.scopes.size + 1 ∧
    t.scope s.scopes.size = [(binding.name, ⟨item, decide (binding.kind = some .let)⟩)] := by
  have bound (v : Variable) : Store.scope
      (s.withScopes ((Scopes.opened s.scopes).put s.scopes.size binding.name v)) s.scopes.size =
        [(binding.name, v)] := by
    rw [Store.scope_eq, Store.scopes_withScopes, Scopes.scope_put, if_pos ⟨rfl, by simp⟩,
      Scopes.scope_opened, Scopes.scope_of_le (Nat.le_refl _)]
    rfl
  obtain ⟨kind, name⟩ := binding
  obtain rfl | rfl := h <;> exact ⟨_, rfl, by simp, bound _⟩

theorem newScope_mem_bindRound {m : Nat} :
    .op (.newScope false env) s ∈ (Course.bindRound binding item env).log (Job.run m) (Job.log m) s := by
  obtain ⟨kind, name⟩ := binding
  obtain rfl | rfl := h <;> exact List.mem_cons_self

end

/-- The log of a loop that has a round left. -/
theorem log_execEach (m : Nat) (binding : LoopBinding) (item : Value) (rest : List Value) (body : Stmt)
    (env : Env) (s : Store) : Job.log (m + 1) (.execEach binding (item :: rest) body env) s =
      .job (m + 1) (.execEach binding (item :: rest) body env) s ::
        ((Course.bindRound binding item env).log (Job.run m) (Job.log m) s ++
          Script.after (bindRound binding item env) s fun inner t =>
            Job.log m (.exec body inner) t ++ Script.after (exec m body inner) t fun c u =>
              (Course.nextRound (.carryOut (.execEach binding rest body env)) c).log (Job.run m)
                (Job.log m) u) := by
  rw [Job.log, ← Course.run_bindRound (Job.run m)]
  exact congrArg _ (Course.log_bind _ _ _)

section
variable {d : Definition} {steps : Nat} {data : Json.Document} {before after : List Entry} {m : Nat}
  {env : Env} {s : Store}

/-- While a job is done, constants stay. -/
theorem Definition.keepsConstants {j : Job} {n : Nat} {t : Store} {a : j.Result} (hd : d.Formed)
    (hl : ∀ e ∈ Job.log n j s, e ∈ d.log steps data) (hr : j.run n s = .ok a t) :
    s.KeepsConstants t := by
  have kept := Job.keptAlong (K := Store.KeepsConstants) (fun _ _ _ => .trans) (fun s => .refl _)
    (fun s => .refl _) (fun s => .refl _) n j s
    fun o z hm => Horizon.keepsConstants (d.holds_log hd steps data _ (hl _ hm)).2
  have ends := kept.ends
  rwa [hr] at ends

section
variable {binding : LoopBinding} {item : Value} {rest : List Value} {body : Stmt}
  (hlog : d.log steps data = before ++ .job (m + 1) (.execEach binding (item :: rest) body env) s :: after)
  (hown : binding.Own)
include hlog hown

/-- A round opens a scope, and the loop goes on past it. -/
theorem Definition.goesOn_execEach : ¬ Sees s.scopes.size env ∧
    GoesOn s.scopes.size (m + 1) (.execEach binding (item :: rest) body env) s after := by
  refine Definition.goesOn hlog ⟨.op (.newScope false env) s, ?_, ?_⟩
  · rw [log_execEach]
    exact List.mem_cons_of_mem _ (List.mem_append_left _ (newScope_mem_bindRound hown item env s))
  · show s.scopes.size < (Scopes.opened s.scopes).size
    simp

/-- What follows the body of a round bypasses the scope of the round. -/
theorem Definition.bypasses_round {t u : Store} {c : Completion}
    (hbind : bindRound binding item env s = .ok (⟨s.scopes.size, false⟩ :: env) t)
    (hbody : exec m body (⟨s.scopes.size, false⟩ :: env) t = .ok c u)
    (hsize : s.scopes.size < u.scopes.size) :
    ∃ later, after = (Course.bindRound binding item env).log (Job.run m) (Job.log m) s ++
        (Job.log m (.exec body (⟨s.scopes.size, false⟩ :: env)) t ++ later) ∧
      Bypasses s.scopes.size later := by
  obtain ⟨hsees, left, hleft, bypasses⟩ := Definition.goesOn_execEach hlog hown
  have again : (Course.nextRound (.carryOut (.execEach binding rest body env)) c).Away s.scopes.size
      (fun _ => True) fun _ => True := Course.away_nextRound ⟨hsees, fun _ => trivial⟩
  rw [log_execEach, after_ok hbind, after_ok hbody] at hleft
  refine ⟨_, ?_, (Course.bypasses (Job.bypasses m) again u hsize).append bypasses⟩
  simpa using hleft

end

end

/-- The function `{var f;for(let x of [null])f=function(){return x};return f()}`, which calls after a
loop what was made in a round. -/
def makesFunction : Definition :=
  ⟨none, [], none, [.declare .var [("f", none)],
    .forOf ⟨some .let, "x"⟩ (.array [.null])
      (.expr (.assign none (.name "f") (.function ⟨none, [], none, [.return (some (.name "x"))]⟩))),
    .return (some (.call (.name "f") []))]⟩

theorem makesFunction_fromText : makesFunction.FromText := by
  have formed : makesFunction.Formed := by
    simp only [makesFunction, Definition.Formed, FormedBody, Stmt.Formed, FormedBindings, FormedOption,
      Expr.Formed, FormedAll]
    decide
  have writable : makesFunction.Writable := by
    simp only [makesFunction, Definition.Writable, WritableBody, Stmt.Writable, WritableBindings,
      WritableOption, Expr.Writable, WritableAll]
    decide
  exact .inl ⟨_, Parser.parseDefinition_text formed writable (by decide)⟩

/-- **Loops over items bind anew for every round**, loops with a header of three parts once.  Where a
loop over items that declares its variable begins a round, it opens a scope that nothing sees yet, and
binds the variable in it.  As the body of the round leaves the variable, so it is found in all that
follows, in the rounds to come and after the loop, until a function that sees this scope assigns to it;
a constant is always found as the item of its round.  The variables that a loop declares in a header of
three parts are in one scope for all rounds: they are found as the whole loop leaves them. -/
theorem rounds_bind_anew (d : Definition) (hd : d.FromText) (steps : Nat) (data : Json.Document) :
    (∀ before m binding item rest body env s after, d.log steps data =
        before ++ .job (m + 1) (.execEach binding (item :: rest) body env) s :: after →
      binding.Own → ¬ Sees s.scopes.size env ∧
        ∃ t, bindRound binding item env s = .ok (⟨s.scopes.size, false⟩ :: env) t ∧
          t.scope s.scopes.size = [(binding.name, ⟨item, decide (binding.kind = some .let)⟩)] ∧
          ∀ c u, exec m body (⟨s.scopes.size, false⟩ :: env) t = .ok c u →
            ∃ v later, after = (Course.bindRound binding item env).log (Job.run m) (Job.log m) s ++
                (Job.log m (.exec body (⟨s.scopes.size, false⟩ :: env)) t ++ later) ∧
              (u.scope s.scopes.size).get? binding.name = some v ∧
              (binding.kind = some .const → v = ⟨item, false⟩) ∧
              Settled s.scopes.size binding.name v later) ∧
    ∀ before m init test update body env s after, d.log steps data =
        before ++ .job (m + 1) (.exec (.loop init test update body) env) s :: after →
      ¬ Sees s.scopes.size env ∧
        newScope false env s =
          .ok (⟨s.scopes.size, false⟩ :: env) (s.withScopes (Scopes.opened s.scopes)) ∧
        ∀ c u, exec (m + 1) (.loop init test update body) env s = .ok c u →
          ∃ later, .job (m + 1) (.exec (.loop init test update body) env) s :: after =
              Job.log (m + 1) (.exec (.loop init test update body) env) s ++ later ∧
            ∀ name v, (u.scope s.scopes.size).get? name = some v →
              Settled s.scopes.size name v later := by
  have formed := hd.formed
  refine ⟨fun before m binding item rest body env s after hlog hown => ?_,
    fun before m init test update body env s after hlog => ?_⟩
  · obtain ⟨t, hbind, hsize, hscope⟩ := bindRound_own hown item env s
    refine ⟨(Definition.goesOn_execEach hlog hown).1, t, hbind, hscope, fun c u hbody => ?_⟩
    have bound : (t.scope s.scopes.size).get? binding.name =
        some ⟨item, decide (binding.kind = some .let)⟩ := by
      rw [hscope]
      simp [Scope.get?]
    -- no run takes back a name, so the round leaves the variable in its scope
    have grows := Job.grows (j := .exec body (⟨s.scopes.size, false⟩ :: env)) hbody
    have opened : s.scopes.size < u.scopes.size :=
      Nat.lt_of_lt_of_le (hsize ▸ Nat.lt_succ_self _) grows.size
    obtain ⟨v, hv⟩ := Option.isSome_iff_exists.mp (grows.bound _ _ (Option.isSome_of_eq_some bound))
    obtain ⟨later, hafter, bypasses⟩ := Definition.bypasses_round hlog hown hbind hbody opened
    have nonzero := Definition.size_ne_zero hlog
    rw [hafter, ← List.cons_append, ← List.append_assoc] at hlog
    refine ⟨v, later, hafter, hv, fun hconst => ?_,
      Definition.settled formed hlog hbody bypasses nonzero opened hv⟩
    have keeps := Definition.keepsConstants (j := .exec body (⟨s.scopes.size, false⟩ :: env)) formed
      (fun e he => by rw [hlog]; exact List.mem_append_right _ (List.mem_append_left _ he)) hbody
    rw [hconst] at bound
    exact Option.some.inj (hv.symm.trans (keeps _ _ _ bound rfl))
  · -- the scope that the loop opens first is the one that its header declares in
    have begins : .op (.newScope false env) s ∈
        Job.log (m + 1) (.exec (.loop init test update body) env) s :=
      List.mem_cons_of_mem _ List.mem_cons_self
    have opens : s.scopes.size < (Entry.op (.newScope false env) s).passed.scopes.size := by
      show s.scopes.size < (Scopes.opened s.scopes).size
      simp
    obtain ⟨hsees, later, hlater, bypasses⟩ := Definition.goesOn hlog ⟨_, begins, opens⟩
    refine ⟨hsees, rfl, fun c u hrun => ⟨later, hlater, fun name v hv => ?_⟩⟩
    have nonzero := Definition.size_ne_zero hlog
    have inside := Job.leads_ok (n := m + 1) (j := .exec (.loop init test update body) env) hrun
    rw [hlater] at hlog
    exact Definition.settled formed hlog hrun bypasses nonzero
      (Nat.lt_of_lt_of_le opens (inside.grows_passed begins).size) hv

/-- The round of `makesFunction` leaves its variable `null`, and so it is found when the function is
called. -/
theorem rounds_bind_anew_makesFunction : ∃ m binding item rest body env s t c u later,
    .job (m + 1) (.execEach binding (item :: rest) body env) s ∈ makesFunction.log 14 .null ∧
      binding.Own ∧ bindRound binding item env s = .ok (⟨s.scopes.size, false⟩ :: env) t ∧
      exec m body (⟨s.scopes.size, false⟩ :: env) t = .ok c u ∧
      Settled s.scopes.size binding.name ⟨.null, true⟩ later := by
  have mem := List.mem_of_getElem? (l := makesFunction.log 14 .null) (i := 17) rfl
  obtain ⟨before, after, hlog⟩ := List.append_of_mem mem
  obtain ⟨-, t, hbind, -, hround⟩ := (rounds_bind_anew makesFunction makesFunction_fromText 14 .null).1
    _ _ _ _ _ _ _ _ _ hlog (.inl rfl)
  obtain ⟨-, rfl⟩ := EStateM.Result.ok.inj hbind
  obtain ⟨v, later, -, hv, -, settled⟩ := hround _ _ rfl
  obtain rfl : ⟨.null, true⟩ = v := Option.some.inj hv
  exact ⟨_, _, _, _, _, _, _, _, _, _, later, mem, .inl rfl, hbind, rfl, settled⟩

end Stencil.Script
