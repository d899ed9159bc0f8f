import Stencil.Proofs.Runs.Discipline

/-!
# Runs — functions, calls and loops bind names

The laws of a discipline for what is made of its primitives: functions, which are made before their
own name is bound, and the bindings of calls, declarations and loop rounds.

* `safe_functionValue`, `safe_declareFunction`: a function that is made can run where it was made.
* `holds_enter`: after a call has bound what it binds, its body is ready.
* `holds_bindRound`: in a round of a loop all is known that was, and the loop variable.
-/

namespace Stencil.Script

theorem Mention.writes_of_isHoisted {m : Mention} {n : String} (h : m.isHoisted n) :
    m.writes n := by
  cases m with
  | declared kind name =>
      cases kind with
      | var => exact congrArg some h
      | «let» => cases h
      | const => cases h
  | named name => exact congrArg some h
  | _ => cases h

/-- What a body uses is bound by its function or used by it. -/
theorem Definition.mem_usesBody_body {d : Definition} {n : String} (h : n ∈ usesBody [] d.body) :
    n ∈ d.bound ∨ n ∈ d.uses [] := by
  by_cases hb : n ∈ d.bound
  · exact .inl hb
  · rw [d.uses_eq, mem_usesBody, List.append_nil]
    exact .inr ⟨h, hb⟩

/-- A function without its name uses what it uses with its name, and its name. -/
theorem Definition.mem_uses_unnamed {d : Definition} {n : String} (h : n ∈ d.unnamed.uses []) :
    d.name = some n ∨ n ∈ d.uses [] := by
  rw [Definition.uses_eq, mem_usesBody, List.append_nil, Definition.mem_bound] at h
  obtain ⟨hu, hb⟩ := h
  rcases @Definition.mem_usesBody_body d n hu with h | h
  · rcases Definition.mem_bound.mp h with h | h | h | h
    · exact absurd (.inl h) hb
    · exact absurd (.inr (.inl h)) hb
    · exact .inl h
    · exact absurd (.inr (.inr (.inr h))) hb
  · exact .inr h

namespace Discipline

variable {D : Discipline} {s : Store} {env : Env}

theorem Ready.writable {σ : Scopes} {mentions : List Mention} {uses : List String} {n : String}
    (h : D.Ready σ env mentions uses) {m : Mention} (hm : m ∈ mentions) (hw : m.writes n) :
    D.Writable n :=
  ⟨m, h.admits m hm, hw⟩

/-- A function with a name of its own can run where its name is known. -/
theorem Ready.unnamed {σ : Scopes} {d : Definition}
    (h : D.Ready σ env d.mentions (d.uses [])) (hn : ∀ n, d.name = some n → D.Knows σ env n) :
    D.Ready σ env d.mentions (d.unnamed.uses []) :=
  ⟨h.toPlace, h.admits, fun n hu => (Definition.mem_uses_unnamed hu).elim (hn n) (h.knows n)⟩

/-! ### Functions -/

theorem Good.pushFunction (g : D.Good s) {d : Definition}
    (h : D.Ready s.scopes env d.mentions (d.unnamed.uses [])) :
    D.Good { s with functions := s.functions.push (.closure d env) } := by
  refine ⟨g.inv, fun d' env' hm => ?_⟩
  rcases Array.mem_push.mp hm with hm | hm
  · exact g.closures d' env' hm
  · cases hm
    exact h

theorem safe_newFunction (g : D.Good s) {d : Definition}
    (h : D.Ready s.scopes env d.mentions (d.unnamed.uses [])) :
    D.Holds (newFunction (.closure d env)) s fun _ t => t.scopes = s.scopes :=
  .of_ok rfl rfl (g.pushFunction h) (.refl _) rfl

theorem functionValue_of_unnamed {d : Definition} (h : d.name = none) (env : Env) :
    functionValue d env = newFunction (.closure d env) := by
  rw [functionValue, h]

theorem functionValue_of_named {d : Definition} {name : String} (h : d.name = some name)
    (env : Env) :
    functionValue d env = newScope false env >>= fun inner =>
      newFunction (.closure d inner) >>= fun f =>
        define inner name f false >>= fun _ => pure f := by
  rw [functionValue, h]

theorem makeNamed_run (d : Definition) (inner : Env) (name : String) (t : Store) :
    (newFunction (.closure d inner) >>= fun f => define inner name f false >>= fun _ => pure f) t =
      .ok (.function t.functions.size)
        { t.withScopes (Scopes.put t.scopes (ownScope inner) name
            ⟨.function t.functions.size, false⟩) with
          functions := t.functions.push (.closure d inner) } := rfl

theorem safe_functionValue (g : D.Good s) {d : Definition}
    (h : D.Ready s.scopes env d.mentions (d.uses [])) : D.Safe (functionValue d env) s := by
  cases e : d.name with
  | none =>
      rw [functionValue_of_unnamed e]
      exact (safe_newFunction g (h.unnamed fun n hn => by rw [e] at hn; cases hn)).safe
  | some name =>
      rw [functionValue_of_named e]
      refine (holds_newScope g false env).bind fun inner t g' gr hi => ?_
      obtain ⟨p, hk⟩ := h.toPlace.of_newScope hi
      have hw : D.Writable name := h.writable (m := .named name)
        (by rw [d.mentions_eq, e]; simp) rfl
      -- the function is in the store before its name is bound: both steps are taken at once
      have hr : D.Ready (Scopes.put t.scopes (ownScope inner) name
          ⟨.function t.functions.size, false⟩) inner d.mentions (d.unnamed.uses []) := by
        refine Ready.unnamed ⟨p.mono (Scopes.grows_put _ _ _ _), h.admits, fun n hn => ?_⟩
          fun n hn => ?_
        · exact (hk n (h.knows n hn)).mono (Scopes.grows_put _ _ _ _)
        · rw [e] at hn
          cases hn
          exact .inr (p.supports.find?_put (.own inner) name _)
      refine .of_ok (makeNamed_run d inner name t) ?_ ((g'.put hw _ _).pushFunction hr)
        (Scopes.grows_put _ _ _ _) trivial
      have hv := seen_put g' hw (ownScope inner) ⟨.function t.functions.size, false⟩
      rw [makeNamed_run]
      exact congrArg (fun u : Store => (.ok (Value.function t.functions.size)
        { u with functions := t.functions.push (.closure d inner) } : Outcome Value)) hv.symm

/-- The function of a declaration may as well be made after its name is declared. -/
theorem declareFunction_eq (d : Definition) (env : Env) :
    declareFunction d env = declareVar env (d.name.getD "") >>= fun _ =>
      newFunction (.closure d env) >>= fun f => assignName env (d.name.getD "") f := by
  funext s
  simp only [declareFunction]
  rw [run_bind, run_bind, declareVar_run]
  cases e : (Scopes.scope s.scopes (varScope env)).get? (d.name.getD "") with
  | some v =>
      show (declareVar env _ >>= _) { s with functions := _ } = _
      rw [run_bind, declareVar_run]
      simp only [e]
      rfl
  | none =>
      show (declareVar env _ >>= _) { s with functions := _ } = _
      rw [run_bind, declareVar_run]
      simp only [e]
      rfl

theorem safe_declareFunction (g : D.Good s) {d : Definition}
    (h : D.Ready s.scopes env (.named (d.name.getD "") :: d.mentions) (d.uses [])) :
    D.Safe (declareFunction d env) s := by
  have hw : D.Writable (d.name.getD "") := h.writable List.mem_cons_self rfl
  rw [declareFunction_eq]
  refine (holds_declareVar g h.toPlace hw).bind fun _ t g' gr hk => ?_
  have hr : D.Ready t.scopes env d.mentions (d.unnamed.uses []) := by
    refine ((h.mono gr).of_subset (fun _ => List.mem_cons_of_mem _) fun _ => id).unnamed ?_
    intro n hn
    rw [hn] at hk
    exact hk
  refine (safe_newFunction g' hr).bind fun f u g'' gr' hu => ?_
  exact safe_assignName g'' (hk.mono gr') hw f

theorem safe_declareFunctions :
    ∀ {body : List Stmt} {s : Store}, D.Good s →
      D.Ready s.scopes env (mentionsBody body) (usesBody [] body) →
      D.Safe (declareFunctions env body) s
  | [], s, g, _ => safe_pure g ()
  | first :: rest, s, g, h => by
      rw [mentionsBody, usesBody, ready_append] at h
      cases first with
      | function d =>
          refine (safe_declareFunction g h.1).bind fun _ t g' gr _ => ?_
          exact safe_declareFunctions g' (h.2.mono gr)
      | _ =>
          have hr : D.Safe (declareFunctions env rest) s := safe_declareFunctions g h.2
          exact hr

/-! ### Calls -/

theorem holds_bindParameters :
    ∀ {names : List String} {s : Store} (arguments : List Value), D.Good s →
      D.Place s.scopes env → (∀ n ∈ names, D.Writable n) →
      D.Holds (bindParameters env names arguments) s fun _ t => ∀ n ∈ names, D.Knows t.scopes env n
  | [], s, arguments, g, _, _ => holds_pure g (by simp)
  | name :: names, s, arguments, g, p, hw => by
      refine (holds_define g p (hw name List.mem_cons_self) _ true).bind fun _ t g' gr hk => ?_
      refine (holds_bindParameters arguments.tail g' (p.mono gr)
        fun n hn => hw n (List.mem_cons_of_mem _ hn)).imp fun _ u _ gr' hall n hn => ?_
      rcases List.mem_cons.mp hn with rfl | hn
      · exact hk.mono gr'
      · exact hall n hn

theorem holds_declareVars :
    ∀ {names : List String} {s : Store}, D.Good s → D.Place s.scopes env →
      (∀ n ∈ names, D.Writable n) →
      D.Holds (declareVars env names) s fun _ t => ∀ n ∈ names, D.Knows t.scopes env n
  | [], s, g, _, _ => holds_pure g (by simp)
  | name :: names, s, g, p, hw => by
      refine (holds_declareVar g p (hw name List.mem_cons_self)).bind fun _ t g' gr hk => ?_
      refine (holds_declareVars g' (p.mono gr)
        fun n hn => hw n (List.mem_cons_of_mem _ hn)).imp fun _ u _ gr' hall n hn => ?_
      rcases List.mem_cons.mp hn with rfl | hn
      · exact hk.mono gr'
      · exact hall n hn

/-- Binds what a body declares for the whole function. -/
def hoist (env : Env) (body : List Stmt) : Run Unit := do
  declareVars env (hoistedNames body)
  declareFunctions env body

theorem mem_mentions_of_mem_mentionsBody {d : Definition} {m : Mention}
    (h : m ∈ mentionsBody d.body) : m ∈ d.mentions := by
  rw [d.mentions_eq]
  exact List.mem_append_right _ h

/-- Where a body's own declarations are all that is missing, they make it ready. -/
theorem holds_hoist {body : List Stmt} (g : D.Good s) (p : D.Place s.scopes env)
    (ha : ∀ m ∈ mentionsBody body, D.admits m)
    (hk : ∀ n ∈ usesBody [] body, n ∈ hoistedNames body ∨ D.Knows s.scopes env n) :
    D.Holds (hoist env body) s fun _ t =>
      D.Ready t.scopes env (mentionsBody body) (usesBody [] body) := by
  have hw : ∀ n ∈ hoistedNames body, D.Writable n := by
    intro n hn
    obtain ⟨m, hm, hh⟩ := isHoisted_of_mem_hoistedNames body hn
    exact ⟨m, ha m hm, Mention.writes_of_isHoisted hh⟩
  refine (holds_declareVars g p hw).bind fun _ t g' gr hv => ?_
  have hr : D.Ready t.scopes env (mentionsBody body) (usesBody [] body) :=
    ⟨p.mono gr, ha, fun n hn => (hk n hn).elim (hv n) (·.mono gr)⟩
  exact (safe_declareFunctions g' hr).imp fun _ u _ gr' _ => hr.mono gr'

theorem bind_hoist {β : Type} (env : Env) (body : List Stmt) (f : Unit → Run β) :
    (hoist env body >>= f) = declareVars env (hoistedNames body) >>= fun _ =>
      declareFunctions env body >>= f := by
  funext s
  simp only [hoist, run_bind]
  cases declareVars env (hoistedNames body) s <;> rfl

/-- Binds the parameter for the remaining arguments. -/
def bindRest (env : Env) (name : Option String) (left : List Value) : Run Unit :=
  match name with
  | some name => do
    let rest ← newArray left.toArray
    define env name rest true
  | none => pure ()

theorem enter_eq (d : Definition) (env : Env) (arguments : List Value) :
    enter d env arguments = newScope true env >>= fun inner =>
      bindParameters inner d.parameters arguments >>= fun left =>
        bindRest inner d.rest left >>= fun _ => hoist inner d.body >>= fun _ => pure inner := by
  simp only [bind_hoist]
  simp only [enter, bindRest]
  cases d.rest <;> rfl

theorem holds_bindRest (g : D.Good s) (p : D.Place s.scopes env) {name : Option String}
    (hw : ∀ n, name = some n → D.Writable n) (left : List Value) :
    D.Holds (bindRest env name left) s fun _ t => ∀ n ∈ name.toList, D.Knows t.scopes env n := by
  cases name with
  | none => exact holds_pure g (by simp)
  | some name =>
      refine (holds_onHeap (onHeap_newArray left.toArray) g).bind fun rest t g' gr ht => ?_
      refine (holds_define g' (p.mono gr) (hw name rfl) rest true).imp fun _ u _ _ hk n hn => ?_
      rw [Option.toList_some, List.mem_singleton] at hn
      exact hn ▸ hk

/-- **Calls.**  After a call has bound what it binds, its body is ready. -/
theorem holds_enter (g : D.Good s) {d : Definition}
    (h : D.Ready s.scopes env d.mentions (d.unnamed.uses [])) (arguments : List Value) :
    D.Holds (enter d env arguments) s fun inner t =>
      D.Ready t.scopes inner (mentionsBody d.body) (usesBody [] d.body) := by
  have hparam : ∀ n ∈ d.parameters ++ d.rest.toList, D.Writable n := fun n hn => by
    refine h.writable (m := .parameter n) ?_ rfl
    rw [d.mentions_eq]
    exact List.mem_append_left _ (List.mem_append_right _ (List.mem_map_of_mem hn))
  have ha : ∀ m ∈ mentionsBody d.body, D.admits m :=
    fun m hm => h.admits m (mem_mentions_of_mem_mentionsBody hm)
  rw [enter_eq]
  refine (holds_newScope g true env).bind fun inner t g₁ gr₁ hi => ?_
  obtain ⟨p, hk⟩ := h.toPlace.of_newScope hi
  refine (holds_bindParameters arguments g₁ p fun n hn =>
    hparam n (List.mem_append_left _ hn)).bind fun left u g₂ gr₂ hp => ?_
  refine (holds_bindRest g₂ (p.mono gr₂) (fun n hn => hparam n (List.mem_append_right _
    (by simp [hn]))) left).bind fun _ v g₃ gr₃ hrest => ?_
  refine (holds_hoist g₃ ((p.mono gr₂).mono gr₃) ha fun n hn => ?_).bind
    fun _ w g₄ _ hr => holds_pure g₄ hr
  -- a name that the body uses is one that the call binds, or it was known where the function was made
  rcases @Definition.mem_usesBody_body d.unnamed n hn with hb | hu
  · rcases Definition.mem_bound.mp hb with hl | hb | hb | hh
    · obtain ⟨m, hm, hl⟩ := isLexical_of_mem_lexicalNames hl
      exact .inr (.inl (D.excused_lexical (ha m hm) hl))
    · rcases List.mem_append.mp hb with hb | hb
      · exact .inr ((hp n hb).mono gr₃)
      · exact .inr (hrest n hb)
    · cases hb
    · exact .inl hh
  · exact .inr (((hk n (h.knows n hu)).mono gr₂).mono gr₃)

/-! ### Declarations and loops -/

theorem safe_bindDeclared (g : D.Good s) (p : D.Place s.scopes env) {kind : DeclKind}
    {name : String} (ha : D.admits (.declared kind name)) (value : Option Value) :
    D.Safe (bindDeclared kind name value env) s := by
  have hw : D.Writable name := ⟨_, ha, rfl⟩
  cases kind with
  | var =>
      refine (holds_declareVar g p hw).bind fun _ t g' gr hk => ?_
      cases value with
      | none => exact safe_pure g' ()
      | some v => exact safe_assignName g' hk hw v
  | «let» => exact safe_declare g hw _ true
  | const => exact safe_declare g hw _ false

/-- **Loop rounds.**  In a round all is known that was, and the loop variable. -/
theorem holds_bindRound (g : D.Good s) {binding : LoopBinding}
    (h : D.Ready s.scopes env binding.mentions (usesLoop [] binding)) (item : Value) :
    D.Holds (bindRound binding item env) s fun inner t =>
      D.Place t.scopes inner ∧
        ∀ n, n ∈ binding.lexical ∨ D.Knows s.scopes env n → D.Knows t.scopes inner n := by
  obtain ⟨kind, name⟩ := binding
  have hw : D.Writable name := by
    cases kind <;> exact h.writable (List.mem_singleton_self _) rfl
  have own : ∀ mutable : Bool,
      D.Holds (newScope false env >>= fun inner => define inner name item mutable >>= fun _ =>
        pure inner) s fun inner t => D.Place t.scopes inner ∧
          ∀ n, n = name ∨ D.Knows s.scopes env n → D.Knows t.scopes inner n := by
    intro mutable
    refine (holds_newScope g false env).bind fun inner t g₁ gr₁ hi => ?_
    obtain ⟨p, hk⟩ := h.toPlace.of_newScope hi
    refine (holds_define g₁ p hw item mutable).bind fun _ u g₂ gr₂ hn => ?_
    refine holds_pure g₂ ⟨p.mono gr₂, ?_⟩
    rintro n (rfl | hn')
    · exact hn
    · exact (hk n hn').mono gr₂
  cases kind with
  | none =>
      have hk : D.Knows s.scopes env name := h.knows name (by simp [usesLoop])
      refine (safe_assignName g hk hw item).bind fun _ t g' gr _ => ?_
      exact holds_pure g' ⟨h.toPlace.mono gr, fun n hn =>
        (hn.resolve_left (by simp [LoopBinding.lexical])).mono gr⟩
  | some kind =>
      cases kind with
      | var =>
          refine (holds_declareVar g h.toPlace hw).bind fun _ t g₁ gr₁ hk => ?_
          refine (safe_assignName g₁ hk hw item).bind fun _ u g₂ gr₂ _ => ?_
          exact holds_pure g₂ ⟨(h.toPlace.mono gr₁).mono gr₂, fun n hn =>
            ((hn.resolve_left (by simp [LoopBinding.lexical])).mono gr₁).mono gr₂⟩
      | «let» =>
          refine (own true).imp fun inner t _ _ hi => ⟨hi.1, fun n hn => hi.2 n ?_⟩
          simpa [LoopBinding.lexical] using hn
      | «const» =>
          refine (own false).imp fun inner t _ _ hi => ⟨hi.1, fun n hn => hi.2 n ?_⟩
          simpa [LoopBinding.lexical] using hn

end Discipline

end Stencil.Script
