import Stencil.Proofs.Runs.Keeps

/-!
# Names — free names are sound

A call fails because a name is not defined only over a name that `freeNames` lists, or over one that
the function declares with `let` or `const`, which is bound only once its declaration is reached.
`nameDiscipline` is the discipline behind this: all names that are used are bound at the place of
use, apart from those two sorts.

The one exception is the name of the function itself.  `freeNames` takes it for bound, and for a
function inside a script it is; a function that is called from outside does not see its own name.

* `Fault.cause_of_apply`: what a fault over a name can be about, for any names that are let pass.
* `free_or_lexical_of_notDefined`: the soundness of `freeNames`.
-/

namespace Stencil.Script

/-- The discipline of scripts that use only names that are bound where they are used, or excused;
declarations with `let` and `const` are excused, since they may be reached late.  `strays` says
whether a script may assign to something that cannot be assigned to. -/
def nameDiscipline (excused : String → Prop) (strays : Prop) : Discipline where
  admits m := (∀ n, m.isLexical n → excused n) ∧ (m = .stray → strays)
  excused := excused
  allowed f := match f with
    | .notDefined n => excused n
    | .invalidTarget => strays
    | _ => True
  rooted _ := True
  inv _ := True
  view := id
  excused_lexical h := h.1 _
  allowed_other := by
    intro f h
    cases f with
    | notDefined n => exact absurd rfl h
    | invalidTarget => exact absurd rfl h
    | _ => trivial
  allowed_stray h := h.2 rfl
  allowed_excused h := h
  rooted_cons _ _ := trivial
  inv_opened _ := trivial
  inv_put _ _ _ _ _ := trivial
  size_view _ := rfl
  view_opened _ := rfl
  view_put _ _ _ _ _ := rfl
  get?_view _ _ _ _ := rfl
  value_view _ _ _ := rfl

/-! ### The outermost scope -/

theorem globalEnv_supported : Scopes.Supports Store.initial.scopes globalEnv where
  nonempty := by simp [globalEnv]
  lt frame h := by
    rw [globalEnv, List.mem_singleton] at h
    subst h
    simp [Store.initial]

theorem find?_globalNames {n : String} (h : n ∈ globalNames) :
    (Scopes.find? Store.initial.scopes n globalEnv).isSome := by
  simp only [globalNames, List.mem_cons, List.not_mem_nil, or_false] at h
  rcases h with rfl | rfl | rfl | rfl | rfl | rfl | rfl <;> rfl

/-- Nothing but provided functions is there when a call begins. -/
theorem no_closure_initial {d : Definition} {env : Env} :
    .closure d env ∉ Store.initial.functions := by
  simp [Store.initial]

namespace Discipline

variable {D : Discipline}

theorem good_initial (h : D.inv Store.initial.scopes) : D.Good Store.initial :=
  ⟨h, fun _ _ hm => absurd hm no_closure_initial⟩

/-- **Calls from outside keep to a discipline** in which the function can run in the outermost
scope. -/
theorem safe_callWith {d : Definition} (hi : D.inv Store.initial.scopes)
    (h : D.Ready Store.initial.scopes globalEnv d.mentions (d.unnamed.uses [])) (steps : Nat)
    (data : Json.Document) : D.Safe (callWith steps d data) Store.initial := by
  refine (holds_onHeap (onHeap_importDocument data) (good_initial hi)).bind fun v t g gr _ => ?_
  refine ((runs steps).invoke d globalEnv [v, helper] g (h.mono gr)).bind fun r u g' _ _ => ?_
  exact .reading (safe_pure g' _) (by simp [seen])

theorem allowed_of_apply {d : Definition} (hi : D.inv Store.initial.scopes)
    (h : D.Ready Store.initial.scopes globalEnv d.mentions (d.unnamed.uses [])) {steps : Nat}
    {data : Json.Document} {f : Fault} (e : d.apply steps data = .error (.fault f)) :
    D.allowed f := by
  obtain ⟨t, hr⟩ := callWith_of_apply e
  exact (safe_callWith hi h steps data).fault f t hr

end Discipline

/-! ### Soundness -/

theorem mem_firsts {n : String} : ∀ {words : List String}, n ∈ firsts words ↔ n ∈ words
  | [] => by simp [firsts]
  | word :: rest => by
      rw [firsts, List.mem_cons, List.mem_filter, mem_firsts, List.mem_cons]
      by_cases h : n = word <;> simp [h]

/-- The free names of a function are those that it uses and the language does not bind. -/
theorem mem_freeNames {d : Definition} {n : String} :
    n ∈ freeNames d ↔ n ∈ d.uses [] ∧ n ∉ globalNames := by
  rw [freeNames, mem_firsts, Definition.mem_uses]

/-- **What a fault over a name can be about.**  If the uses of a function, apart from those that
the language binds, are excused, and its declarations with `let` and `const` are, then a call fails
over an excused name, and over a target only if there is one that cannot be assigned to. -/
theorem Fault.cause_of_apply {d : Definition} {excused : String → Prop} {strays : Prop}
    (hfree : ∀ n ∈ freeNames d.unnamed, excused n)
    (hlex : ∀ n, d.DeclaresLexically n → excused n) (hstray : .stray ∈ d.mentions → strays)
    {steps : Nat} {data : Json.Document} {f : Fault}
    (h : d.apply steps data = .error (.fault f)) :
    (nameDiscipline excused strays).allowed f := by
  refine Discipline.allowed_of_apply trivial ⟨⟨globalEnv_supported, trivial⟩, ?_, ?_⟩ h
  · intro m hm
    refine ⟨fun n hl => hlex n ⟨m, hm, hl⟩, ?_⟩
    rintro rfl
    exact hstray hm
  · intro n hn
    by_cases hg : n ∈ globalNames
    · exact .inr (find?_globalNames hg)
    · exact .inl (hfree n (mem_freeNames.mpr ⟨hn, hg⟩))

/-- The free names that a function has without its name are those that it has with it, and
perhaps its name. -/
theorem mem_freeNames_unnamed {d : Definition} {n : String} (h : n ∈ freeNames d.unnamed) :
    d.name = some n ∨ n ∈ freeNames d := by
  obtain ⟨hu, hg⟩ := mem_freeNames.mp h
  exact (Definition.mem_uses_unnamed hu).imp_right fun hu => mem_freeNames.mpr ⟨hu, hg⟩

/-- **Free names are sound**, but for a function's own name: if a call fails because a name is not
defined, the name is free in the function, or declared in it with `let` or `const`, or it is the
name of the function, and free in the function but for that. -/
theorem free_or_lexical_of_notDefined (d : Definition) {steps : Nat} {data : Json.Document}
    {n : String} (h : d.apply steps data = .error (.fault (.notDefined n))) :
    (n ∈ freeNames d ∨ d.DeclaresLexically n) ∨ (d.name = some n ∧ n ∈ freeNames d.unnamed) := by
  have cause : n ∈ freeNames d.unnamed ∨ d.DeclaresLexically n :=
    @Fault.cause_of_apply d (fun n => n ∈ freeNames d.unnamed ∨ d.DeclaresLexically n) True
      (fun _ => .inl) (fun _ => .inr) (fun _ => trivial) _ _ _ h
  rcases cause with hf | hl
  · rcases mem_freeNames_unnamed hf with hn | hfree
    · exact .inr ⟨hn, hf⟩
    · exact .inl (.inl hfree)
  · exact .inl (.inr hl)

/-- `function f() { return f; }`, whose name is free only without its name. -/
def returnsItself : Definition :=
  ⟨some "f", [], none, [.return (some (.name "f"))]⟩

/-- Called from outside, `returnsItself` does not see its own name, which `freeNames` does not list
and which it does not declare. -/
theorem returnsItself_notDefined :
    returnsItself.apply 4 .null = .error (.fault (.notDefined "f")) ∧
      ((("f" ∈ freeNames returnsItself ∨ returnsItself.DeclaresLexically "f") ∨
        (returnsItself.name = some "f" ∧ "f" ∈ freeNames returnsItself.unnamed)) ∧
      "f" ∉ freeNames returnsItself ∧ ¬ returnsItself.DeclaresLexically "f") := by
  refine ⟨rfl, @free_or_lexical_of_notDefined returnsItself 4 .null "f" rfl,
    by decide, ?_⟩
  rintro ⟨m, hm, hl⟩
  simp only [returnsItself, Definition.mentions, mentionsBody, Stmt.mentions, mentionsOption,
    Expr.mentions] at hm
  simp only [Option.toList, List.map, List.append_nil, List.nil_append, List.mem_cons,
    List.not_mem_nil, or_false, List.cons_append] at hm
  rcases hm with rfl | rfl <;> exact hl

end Stencil.Script
