import Stencil.Proofs.Sheets.Trees
import Stencil.Proofs.Sheets.Values
import Stencil.Proofs.Runs.Helper

/-!
# Sheets — lines as runs

Where the output, the value written last and the helper object are bound as a template binds them,
and the names of a line to what they stand for (`Ground`), running the line puts its text together
(`Line.follows_tree`).
-/

namespace Stencil
namespace Script

/-! ### Scopes of a sheet -/

namespace Scopes

/-- A variable that is bound in the scope of the call and nowhere else. -/
structure Sole (σ : Scopes) (name : String) (v : Value) : Prop where
  bound : (σ.scope callScope).get? name = some ⟨v, true⟩
  alone : ∀ r, r ≠ callScope → (σ.scope r).get? name = none

namespace Sole

variable {σ : Scopes} {name : String} {v : Value}

theorem find? (h : σ.Sole name v) : ∀ {env : Env}, (∃ frame ∈ env, frame.scope = callScope) →
    σ.find? name env = some (callScope, ⟨v, true⟩)
  | frame :: outer, ⟨other, hm, hother⟩ => by
      rw [find?_cons]
      by_cases hf : frame.scope = callScope
      · rw [hf, h.bound]
      · rw [h.alone _ hf]
        rcases List.mem_cons.mp hm with rfl | hm
        · exact absurd hother hf
        · exact h.find? ⟨other, hm, hother⟩

theorem size (h : σ.Sole name v) : callScope < σ.size := by
  by_contra hlt
  have hb := h.bound
  rw [scope_of_le (Nat.le_of_not_lt hlt)] at hb
  cases hb

theorem put_self (h : σ.Sole name v) (w : Value) :
    (σ.put callScope name ⟨w, true⟩).Sole name w where
  bound := by rw [get?_scope_put _ h.size, if_pos ⟨rfl, rfl⟩]
  alone r hr := by
    rw [get?_scope_put _ h.size, if_neg fun he => hr he.1.symm]
    exact h.alone r hr

theorem put (h : σ.Sole name v) {word : String} (hw : word ≠ name) (r : Ref) (w : Variable) :
    (σ.put r word w).Sole name v := by
  have same : ∀ q, ((σ.put r word w).scope q).get? name = (σ.scope q).get? name := fun q => by
    rw [scope_put]
    split
    · rw [Scope.get?_put_of_ne hw.symm]
    · rfl
  exact ⟨(same _).trans h.bound, fun q hq => (same q).trans (h.alone q hq)⟩

theorem lookUp {s : Store} (h : Sole s.scopes name v) {env : Env}
    (hi : ∃ frame ∈ env, frame.scope = callScope) : Script.lookUp env name s = .ok v s := by
  rw [lookUp_run, h.find? hi]

theorem assign {s : Store} (h : Sole s.scopes name v) {env : Env}
    (hi : ∃ frame ∈ env, frame.scope = callScope) (w : Value) : assignName env name w s =
      .ok () (s.withScopes (Scopes.put s.scopes callScope name ⟨w, true⟩)) := by
  rw [assignName_run, h.find? hi]
  rfl

theorem opened (h : σ.Sole name v) : σ.opened.Sole name v :=
  ⟨by rw [scope_opened]; exact h.bound, fun r hr => by rw [scope_opened]; exact h.alone r hr⟩

end Sole

/-- **The scopes after part of a sheet**: there may be more, and what was bound before is bound as it
was, but for the output and the value written last. -/
structure Later (σ : Scopes) (out : String) (τ : Scopes) : Prop where
  size : σ.size ≤ τ.size
  same : ∀ r, r < σ.size → ∀ name, name ≠ "__p" → name ≠ "__t" →
    (τ.scope r).get? name = (σ.scope r).get? name
  output : τ.Sole "__p" (.string out)
  last : ∃ v, τ.Sole "__t" v

namespace Later

variable {σ τ υ : Scopes} {out out' : String}

theorem trans (h : Later σ out τ) (h' : Later τ out' υ) : Later σ out' υ :=
  ⟨Nat.le_trans h.size h'.size,
    fun r hr name hp ht => (h'.same r (Nat.lt_of_lt_of_le hr h.size) name hp ht).trans
      (h.same r hr name hp ht), h'.output, h'.last⟩

theorem of_opened (h : Later σ.opened out τ) : Later σ out τ where
  size := Nat.le_of_succ_le (by have := h.size; rwa [size_opened] at this)
  same r hr name hp ht := by
    rw [h.same r (by rw [size_opened]; omega) name hp ht, scope_opened]
  output := h.output
  last := h.last

theorem of_round {name : String} {v : Variable} (h : Later (σ.opened.put σ.size name v) out τ) :
    Later σ out τ where
  size := Nat.le_of_succ_le (by have := h.size; rwa [size_put, size_opened] at this)
  same r hr word hp ht := by
    have hne : ¬ (σ.size = r ∧ word = name) := fun he => Nat.lt_irrefl _ (he.1 ▸ hr)
    have hlt : σ.size < σ.opened.size := by
      rw [size_opened]
      exact Nat.lt_succ_self _
    rw [h.same r (by rw [size_put]; exact Nat.lt_trans hr hlt) word hp ht, get?_scope_put _ hlt,
      if_neg hne, scope_opened]
  output := h.output
  last := h.last

theorem putLast (h : Later σ out τ) (v : Value) :
    Later σ out (τ.put callScope "__t" ⟨v, true⟩) where
  size := by rw [size_put]; exact h.size
  same r hr name hp ht := by
    rw [get?_scope_put _ h.output.size, if_neg fun he => ht he.2]
    exact h.same r hr name hp ht
  output := h.output.put (by decide) _ _
  last := h.last.elim fun _ hl => ⟨v, hl.put_self v⟩

theorem putOutput (h : Later σ out τ) (out' : String) :
    Later σ out' (τ.put callScope "__p" ⟨.string out', true⟩) where
  size := by rw [size_put]; exact h.size
  same r hr name hp ht := by
    rw [get?_scope_put _ h.output.size, if_neg fun he => hp he.2]
    exact h.same r hr name hp ht
  output := h.output.put_self _
  last := h.last.imp fun _ hl => hl.put (by decide) _ _

theorem find? (h : Later σ out τ) {name : String} (hp : name ≠ "__p") (ht : name ≠ "__t") :
    ∀ {env : Env}, (∀ frame ∈ env, frame.scope < σ.size) → τ.find? name env = σ.find? name env
  | [], _ => rfl
  | frame :: outer, hb => by
      rw [find?_cons, find?_cons, h.same _ (hb frame List.mem_cons_self) name hp ht,
        h.find? hp ht fun other hm => hb other (List.mem_cons_of_mem _ hm)]

end Later

end Scopes

/-- Names that are bound to neither the output nor the value written last. -/
def Foreign (names : List String) : Prop :=
  ∀ name ∈ names, name ≠ "__p" ∧ name ≠ "__t"

/-- The names that the statements of a sheet use besides the sheet's own. -/
def ownNames : List String :=
  ["__p", "__t", "_"]

/-- **Where a sheet's statements run**, with the output so far. -/
structure Ground (ρ : Valuation) (names : List String) (out : String) (env : Env) (s : Store) : Prop
    extends Names ρ names env s where
  inside : ∃ frame ∈ env, frame.scope = Scopes.callScope
  below : ∀ frame ∈ env, frame.scope < s.scopes.size
  output : Scopes.Sole s.scopes "__p" (.string out)
  last : ∃ v, Scopes.Sole s.scopes "__t" v
  helper : Scopes.Stands s.scopes env "_" Script.helper

namespace Ground

variable {ρ : Valuation} {names : List String} {out out' : String} {env : Env} {s t : Store}

theorem later (h : Ground ρ names out env s) : Scopes.Later s.scopes out s.scopes :=
  ⟨Nat.le_refl _, fun _ _ _ _ _ => rfl, h.output, h.last⟩

theorem of_subset (h : Ground ρ names out env s) {names' : List String} (hs : names' ⊆ names) :
    Ground ρ names' out env s :=
  { h with stands := fun word hw => h.stands word (hs hw) }

theorem of_scopes (h : Ground ρ names out env s) (g : t.Given) (hs : t.scopes = s.scopes) :
    Ground ρ names out env t where
  given := g
  stands := by rw [hs]; exact h.stands
  inside := h.inside
  below := by rw [hs]; exact h.below
  output := by rw [hs]; exact h.output
  last := by rw [hs]; exact h.last
  helper := by rw [hs]; exact h.helper

/-- After part of a sheet all is as before, but for the output. -/
theorem after (h : Ground ρ names out env s) (hn : Foreign names) (g : t.Given)
    (hl : Scopes.Later s.scopes out' t.scopes) : Ground ρ names out' env t where
  given := g
  stands word hw := by
    obtain ⟨hp, ht⟩ := hn word hw
    rw [Scopes.Stands, hl.find? hp ht h.below]
    exact h.stands word hw
  inside := h.inside
  below frame hm := Nat.lt_of_lt_of_le (h.below frame hm) hl.size
  output := hl.output
  last := hl.last
  helper := by
    rw [Scopes.Stands, hl.find? (by decide) (by decide) h.below]
    exact h.helper

theorem lookUp_helper (h : Ground ρ names out env s) :
    lookUp env "_" s = .ok Script.helper s :=
  h.helper.lookUp

/-- In a scope of its own, with nothing bound in it. -/
theorem opened (h : Ground ρ names out env s) : Ground ρ names out
    (⟨s.scopes.size, false⟩ :: env) (s.withScopes (Scopes.opened s.scopes)) := by
  have stands : ∀ {word v}, Scopes.Stands s.scopes env word v →
      Scopes.Stands (Scopes.opened s.scopes) (⟨s.scopes.size, false⟩ :: env) word v := by
    intro word v hv
    rw [Scopes.Stands, Scopes.find?_cons, Scopes.scope_opened, Scopes.scope_of_le (Nat.le_refl _)]
    rw [Scopes.Stands] at hv
    rw [Scopes.find?_congr (τ := s.scopes) fun r => by rw [Scopes.scope_opened]]
    exact hv
  exact {
    given := h.given.withScopes _
    stands := fun word hw => stands (h.stands word hw)
    inside := h.inside.imp fun _ hf => ⟨List.mem_cons_of_mem _ hf.1, hf.2⟩
    below := fun frame hm => by
      rw [Store.scopes_withScopes, Scopes.size_opened]
      rcases List.mem_cons.mp hm with rfl | hm
      · exact Nat.lt_succ_self _
      · exact Nat.lt_succ_of_lt (h.below frame hm)
    output := h.output.opened
    last := h.last.imp fun _ hl => hl.opened
    helper := stands h.helper }

/-- In a round of a repetition. -/
theorem round (h : Ground ρ names out env s) {name : String} (hname : name ∉ ownNames)
    {names' : List String} (hnames : ∀ n ∈ names', n = name ∨ n ∈ names) (item : Value) :
    Ground (ρ.bind name item) names' out (⟨s.scopes.size, false⟩ :: env)
      (s.withScopes (Scopes.put (Scopes.opened s.scopes) s.scopes.size name ⟨item, true⟩)) := by
  have o := h.opened
  have found : ∀ word, Scopes.find? (Scopes.put (Scopes.opened s.scopes) s.scopes.size name
      ⟨item, true⟩) word (⟨s.scopes.size, false⟩ :: env) =
        if word = name then some (s.scopes.size, ⟨item, true⟩)
        else Scopes.find? (Scopes.opened s.scopes) word (⟨s.scopes.size, false⟩ :: env) := by
    intro word
    have hlt : s.scopes.size < (Scopes.opened s.scopes).size := by
      rw [Scopes.size_opened]
      exact Nat.lt_succ_self _
    by_cases hword : word = name
    · rw [if_pos hword, Scopes.find?_cons, Scopes.get?_scope_put _ hlt, if_pos ⟨rfl, hword⟩]
    · rw [if_neg hword]
      refine Scopes.find?_congr (fun r => ?_) _
      rw [Scopes.get?_scope_put _ hlt, if_neg fun he => hword he.2]
  have ne : ∀ word ∈ ownNames, name ≠ word := fun word hw he => hname (he ▸ hw)
  exact {
    given := h.given.withScopes _
    stands := fun word hw => by
      rw [Scopes.Stands, Store.scopes_withScopes, found, Valuation.bind]
      by_cases hword : word = name
      · rw [if_pos hword, if_pos hword]
        exact ⟨_, _, rfl⟩
      · rw [if_neg hword, if_neg hword]
        exact o.stands word ((hnames word hw).resolve_left hword)
    inside := o.inside
    below := fun frame hm => by
      rw [Store.scopes_withScopes, Scopes.size_put]
      exact o.below frame hm
    output := o.output.put (ne _ (by decide)) _ _
    last := o.last.imp fun _ hl => hl.put (ne _ (by decide)) _ _
    helper := by
      rw [Scopes.Stands, Store.scopes_withScopes, found, if_neg (ne _ (by decide)).symm]
      exact o.helper }

end Ground

/-! ### Values that are written -/

section
variable {ρ : Valuation} {names : List String} {out : String} {env : Env} {s t : Store}

/-- A comparison with `null`. -/
theorem settles_equalNull {e : Expr} {v : Value}
    (he : Settles (fun n => eval n e env) s (.ok v t)) :
    Settles (fun n => eval n (.binary .equal e .null) env) s (.ok (.bool v.isNullish) t) := by
  refine .succ (fun _ => by rw [eval]) (he.bind_ok ?_)
  have null : Settles (fun n => eval n .null env) t (.ok .null t) :=
    .succ (m := fun _ => pure .null) (fun _ => by rw [eval]) (.const _ t)
  refine null.bind_ok ?_
  have equal : looseEqual t v .null = v.isNullish := by
    simp [looseEqual, looseEqualWithin?, Value.isNullish]
  have compared : operate .equal v .null t = .ok (.bool v.isNullish) t := by
    rw [← equal]
    rfl
  exact .of_run compared

/-- A choice between two values. -/
theorem settles_conditional {test yes no : Expr} {v : Value} {r : Outcome Value}
    (ht : Settles (fun n => eval n test env) s (.ok v t))
    (hr : Settles (fun n => if v.truthy then eval n yes env else eval n no env) t r) :
    Settles (fun n => eval n (.conditional test yes no) env) s r :=
  .succ (fun _ => by rw [eval]) (ht.bind_ok hr)

theorem call_plain {r : Ref} {m : PlainNative} (h : s.callable r = .native (.plain m)) (n : Nat)
    (arguments : List Value) :
    call (n + 1) (.function r) arguments s = m.run arguments s := by
  rw [call, run_get_bind]
  simp only [h]

/-- The function of the helper object that escapes. -/
theorem settles_escape {arguments : List Expr} {v : Value}
    (g : s.Given) (hhelper : lookUp env "_" s = .ok helper s)
    (hv : Settles (fun n => evalAll n arguments env) s (.ok [v] s)) :
    Settles (fun n => eval n (.call (.member (.name "_") "escape") arguments) env) s
      (.ok (.string (if v.isNullish then "" else Markup.escape (s.text v))) s) := by
  have member : getProperty helper "escape" s = .ok (.function 3) s := by
    have fields : s.fields 0 = helperFields := by
      rw [Store.fields, Array.getD_eq_getD_getElem?, g.helper]
      rfl
    show EStateM.Result.ok (((s.fields 0).get? "escape").getD .undefined) s = _
    rw [fields]
    rfl
  have escaped : Script.PlainNative.run .escape [v] s =
      .ok (.string (if v.isNullish then "" else Markup.escape (s.text v))) s := rfl
  have called : Settles (fun n => call n (.function 3) [v]) s
      (.ok (.string (if v.isNullish then "" else Markup.escape (s.text v))) s) :=
    .of_eq fun n => (call_plain (g.natives 3 (by decide)) n [v]).trans escaped
  refine .succ (fun _ => by rw [eval]) (.succ (fun _ => by rw [evalCall]) ?_)
  refine (settles_name hhelper).bind_ok (hv.bind_ok ?_)
  refine .succ (m := fun n => getProperty helper "escape" >>= fun f =>
    if f.isFunction then call n f [v] else fail (.notCallable "_.escape")) (fun n => ?_) ?_
  · rw [callMethod]
    rfl
  · exact (Settles.of_run member).bind_ok called

end

/-! ### Texts that are joined -/

theorem onData_joined (a b : String) : OnData (joined a b) fun _ => True := by
  unfold joined
  split
  · exact .fail _
  · exact .pure trivial

/-- Adding a value to a string joins its text to it. -/
theorem follows_add {s : Store} {a b : String} {v : Value} (h : s.text (s.primitive v) = b) :
    Follows (fun _ => operate .add (.string a) v) s (joined a b s)
      fun text w σ => w = .string text ∧ σ = s.scopes := by
  have hadd : operate .add (.string a) v s = add.join a b s := by
    rw [← h]
    rfl
  have hsettles : Settles (fun _ => operate .add (.string a) v) s (add.join a b s) := by
    exact .of_run hadd
  rw [add.join] at hsettles
  rw [joined]
  by_cases hlong : maxStringBytes < a.utf8ByteSize + b.utf8ByteSize
  · rw [if_pos hlong] at hsettles ⊢
    exact .error hsettles
  · rw [if_neg hlong] at hsettles ⊢
    exact .ok ⟨rfl, rfl⟩ hsettles

end Script

open Script Template

section
variable {ρ : Valuation} {names : List String} {out : String} {env : Env} {s t : Store}

/-- What a directive adds of a value. -/
def Segment.shown (segment : Segment) (s : Store) (v : Value) : Value :=
  if v.isNullish then .string ""
  else if segment.escapes then .string (Markup.escape (s.text v))
  else v

theorem Segment.text_shown (segment : Segment) (s : Store) (v : Value) :
    s.text (s.primitive (segment.shown s v)) = s.written segment.escapes v := by
  rw [shown, Store.written]
  split
  · rfl
  · split
    · rfl
    · cases v <;> rfl

/-- **A directive** adds the value of its expression. -/
theorem Segment.settles_shown (segment : Segment) (hρ : ρ.Given) (g : Ground ρ names out env s)
    (hn : segment.phrase.tree.uses [] ⊆ names) {v : Value}
    (h : segment.phrase.tree.value ρ s = .ok v t) :
    Settles (fun n => eval n segment.value env) s (.ok (segment.shown t v)
      (t.withScopes (Scopes.put s.scopes Scopes.callScope "__t" ⟨v, true⟩))) := by
  have data := Expr.onData_value hρ segment.phrase.tree
  have hgiven := data.given s g.given
  have hscopes := data.scopes g.given h
  have value := Expr.settles_value hρ segment.phrase.plain (g.toNames.of_subset hn)
  rw [h] at value hgiven
  have ground : Ground ρ names out env t := g.of_scopes hgiven hscopes
  rw [← hscopes]
  obtain ⟨w, hl⟩ := ground.last
  have assigned := settles_assign value (hl.assign ground.inside v)
  have hlast := hl.put_self v
  generalize hu : t.withScopes (Scopes.put t.scopes Scopes.callScope "__t" ⟨v, true⟩) = u at assigned ⊢
  have last : lookUp env "__t" u = .ok v u := by
    rw [← hu]
    exact Scopes.Sole.lookUp hlast ground.inside
  have ground' : Ground ρ [] out env u := by
    rw [← hu]
    exact (ground.of_subset (List.nil_subset _)).after nofun (hgiven.withScopes _)
      (ground.later.putLast v)
  have htext : t.text v = u.text v := by rw [← hu, Store.text_withScopes]
  refine settles_conditional (settles_equalNull assigned) ?_
  rw [shown, htext]
  cases hnull : v.isNullish with
  | true => exact settles_string ""
  | false =>
      cases segment.escapes with
      | false => exact settles_name last
      | true =>
          have value : Settles (fun n => evalAll n [.name "__t"] env) u (.ok [v] u) := by
            refine .succ (fun _ => by rw [evalAll]) ((settles_name last).bind_ok ?_)
            refine Settles.bind_ok (a := []) (t := u) (.of_eq fun n => ?_) (.const (pure [v]) u)
            rw [evalAll]
            rfl
          have escaped := settles_escape ground'.given ground'.lookUp_helper value
          rw [hnull] at escaped
          exact escaped

/-- A directive whose expression ends with a fault. -/
theorem Segment.settles_error (segment : Segment) (hρ : ρ.Given) (g : Ground ρ names out env s)
    (hn : segment.phrase.tree.uses [] ⊆ names) {e : Stop}
    (h : segment.phrase.tree.value ρ s = .error e t) :
    Settles (fun n => eval n segment.value env) s (.error e t) := by
  have value := Expr.settles_value hρ segment.phrase.plain (g.toNames.of_subset hn)
  rw [h] at value
  have assigned : Settles
      (fun n => eval n (.assign none (.name "__t") segment.phrase.tree) env) s (.error e t) :=
    .succ (fun _ => by rw [eval]) ((settles_place "__t").bind_ok value.bind_error)
  have equal : Settles (fun n =>
      eval n (.binary .equal (.assign none (.name "__t") segment.phrase.tree) .null) env) s
        (.error e t) :=
    .succ (fun _ => by rw [eval]) assigned.bind_error
  exact .succ (fun _ => by rw [Segment.value, eval]) equal.bind_error

theorem onData_written (escapes : Bool) {v : Value} (hv : v.Given) (before : String) :
    OnData (get >>= fun s : Store => joined before (s.written escapes v)) fun _ => True :=
  .reading (fun _ _ => onData_joined _ _) fun s t g g' => by
    simp only [Store.written, Store.text_withHeap g g' hv]

/-- The text before, and the value of a directive after it. -/
def Segment.begin (segment : Segment) (ρ : Valuation) (before : String) : Run String := do
  let v ← segment.phrase.tree.value ρ
  let s ← get
  joined before (s.written segment.escapes v)

theorem Segment.onData_begin (segment : Segment) (hρ : ρ.Given) (before : String) :
    OnData (segment.begin ρ before) fun _ => True :=
  (Expr.onData_value hρ _).bind fun _ hv => onData_written _ hv before

theorem Segment.write_eq (segment : Segment) (before : String) : segment.write ρ before =
    segment.begin ρ before >>= fun text => joined text segment.after.text := by
  simp only [write, begin, bind_assoc]

theorem Segment.onData_write (segment : Segment) (hρ : ρ.Given) (before : String) :
    OnData (segment.write ρ before) fun _ => True := by
  rw [write_eq]
  exact (segment.onData_begin hρ before).bind fun _ _ => onData_joined _ _

/-- **A text that is put together**: the run has it as a string, and has changed nothing but the
value written last. -/
def PutTogether (out : String) (s : Store) (text : String) (v : Value) (σ : Scopes) : Prop :=
  v = .string text ∧ Scopes.Later s.scopes out σ

theorem Segment.follows_begin (segment : Segment) (hρ : ρ.Given) (g : Ground ρ names out env s)
    (hn : segment.phrase.tree.uses [] ⊆ names) (before : String) :
    Follows (fun n => eval n segment.value env >>= fun w => operate .add (.string before) w) s
      (segment.begin ρ before s) (PutTogether out s) := by
  have data := Expr.onData_value hρ segment.phrase.tree
  have hgiven := data.given s g.given
  rw [begin, run_bind]
  cases h : segment.phrase.tree.value ρ s with
  | error e t => exact .error (σ := t.scopes) (segment.settles_error hρ g hn h).bind_error
  | ok v t =>
      rw [h] at hgiven
      have hv := data.result s v t g.given h
      have written := onData_written segment.escapes hv before
      show Follows _ s ((get >>= fun s : Store => joined before (s.written segment.escapes v)) t) _
      refine .resume (segment.settles_shown hρ g hn h) hgiven written ?_
      generalize hu : t.withScopes (Scopes.put s.scopes Scopes.callScope "__t" ⟨v, true⟩) = u
      have hshown : segment.shown t v = segment.shown u v := by
        rw [shown, shown, ← hu, Store.text_withScopes]
      rw [hshown]
      refine (follows_add (segment.text_shown u v)).imp fun text w σ hw => ⟨hw.1, ?_⟩
      rw [hw.2, ← hu]
      exact g.later.putLast v

/-- **One more directive**, and the text after it, where the names still stand for what they do. -/
theorem Segment.follows_extend (segment : Segment) (hρ : ρ.Given) (g : Ground ρ names out env s)
    (hn : segment.phrase.tree.uses [] ⊆ names) {left : Expr} {m : Run String}
    (data : OnData m fun _ => True)
    (hleft : Follows (fun n => eval n left env) s (m s) fun before v σ => PutTogether out s before v σ ∧
      ∀ t : Store, t.Given → t.scopes = σ → Ground ρ names out env t) :
    Follows (fun n => eval n (segment.extend left) env) s ((m >>= segment.write ρ) s)
      (PutTogether out s) := by
  have value : Follows (fun n => eval n (.binary .add left segment.value) env) s
      ((m >>= segment.begin ρ) s) (PutTogether out s) := by
    refine .succ (fun _ => by rw [eval]) (.bind g.given data hleft
      (fun before _ => segment.onData_begin hρ before) ?_)
    rintro before _ t σ g' - ⟨⟨rfl, later⟩, ground⟩
    exact (segment.follows_begin hρ (ground _ g' rfl) hn before).imp
      fun _ _ _ h => ⟨h.1, later.trans h.2⟩
  have all : (m >>= segment.write ρ) = (m >>= segment.begin ρ) >>= fun text =>
      joined text segment.after.text := by
    rw [bind_assoc]
    exact congrArg _ (funext segment.write_eq)
  rw [all]
  refine .succ (fun _ => by rw [extend, eval]) (.bind g.given
    (data.bind fun before _ => segment.onData_begin hρ before) value
    (fun text _ => onData_joined text _) ?_)
  rintro text _ t σ g' - ⟨rfl, later⟩
  refine .after (settles_string segment.after.text) ((follows_add rfl).imp fun _ _ _ h => ⟨h.1, ?_⟩)
  rw [h.2]
  exact later

/-! ### Lines -/

theorem onData_segments (hρ : ρ.Given) : ∀ (segments : List Segment) (before : String),
    OnData (segments.foldlM (fun before segment => segment.write ρ before) before) fun _ => True
  | [], _ => .pure trivial
  | segment :: segments, before => by
      rw [List.foldlM_cons]
      exact (segment.onData_write hρ before).bind fun text _ => onData_segments hρ segments text

theorem Line.onData_write (line : Line) (hρ : ρ.Given) :
    OnData (line.write ρ) fun _ => True :=
  onData_segments hρ _ _

theorem follows_segments (hρ : ρ.Given) (g : Ground ρ names out env s) (hforeign : Foreign names) :
    ∀ {segments : List Segment} {left : Expr} {m : Run String},
      (segments.flatMap fun segment => segment.phrase.tree.uses []) ⊆ names →
      OnData m (fun _ => True) →
      Follows (fun n => eval n left env) s (m s) (PutTogether out s) →
      Follows (fun n => eval n (segments.foldl Segment.extend left) env) s
        ((m >>= fun before => segments.foldlM (fun before segment => segment.write ρ before) before) s)
        (PutTogether out s)
  | [], left, m, _, _, h => by
      simp only [List.foldlM_nil, bind_pure]
      exact h
  | segment :: segments, left, m, hn, data, h => by
      rw [List.flatMap_cons, List.append_subset] at hn
      have first := segment.follows_extend hρ g hn.1 data
        (h.imp fun _ _ _ put => ⟨put, fun t g' ht => g.after hforeign g' (ht ▸ put.2)⟩)
      have others := follows_segments hρ g hforeign hn.2
        (data.bind fun before _ => segment.onData_write hρ before) first
      simp only [List.foldlM_cons]
      rwa [bind_assoc] at others

/-- A line with names that what it writes does not change: there is one directive at most, or the
names are bound to neither the output nor the value written last. -/
def Line.Steady (line : Line) (names : List String) : Prop :=
  Foreign names ∨ line.segments.length ≤ 1

/-- **The text of a line** is put together as the line says. -/
theorem Line.follows_tree (line : Line) (hρ : ρ.Given) (g : Ground ρ names out env s)
    (hsteady : line.Steady names) (hn : line.names ⊆ names) :
    Follows (fun n => eval n line.tree env) s (line.write ρ s) (PutTogether out s) := by
  have first : Follows (fun n => eval n (.string line.first.text) env) s
      ((pure line.first.text : Run String) s) fun text v σ => PutTogether out s text v σ ∧ σ = s.scopes :=
    .ok ⟨⟨rfl, g.later⟩, rfl⟩ (settles_string line.first.text)
  rcases hsteady with hforeign | hone
  · have all := follows_segments hρ g hforeign hn (.pure trivial) (first.imp fun _ _ _ h => h.1)
    rwa [pure_bind] at all
  · obtain ⟨text, _ | ⟨segment, _ | ⟨_, _⟩⟩⟩ := line
    · exact first.imp fun _ _ _ h => h.1
    · rw [Line.names, List.flatMap_singleton] at hn
      have all := segment.follows_extend hρ g hn (.pure trivial) (first.imp fun _ _ _ h =>
        ⟨h.1, fun t g' ht => g.of_scopes g' (ht.trans h.2)⟩)
      rw [pure_bind] at all
      rw [write, List.foldlM_cons]
      simp only [List.foldlM_nil, bind_pure]
      exact all
    · simp only [List.length_cons] at hone
      omega

end

end Stencil
