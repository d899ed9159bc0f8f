import Stencil.Proofs.Runs.Settles

/-!
# Runs — compound assignments

`t op= e` finds its target once and `t = t op e` twice, once to write and once to read.  Where the
target is a name, or a member or an index with names and literals inside, finding it only reads
(`onlyReads_look`), and both times are before `e` is computed.  So the two runs are the same
whatever `e` does, also to the target itself (`assign_compound`).

`Expr.look` computes such parts without steps, and `Expr.found` a target made of them.
-/

namespace Stencil.Script

/-! ### Runs that only read -/

section
variable {α β γ : Type}

/-- Whether a run leaves the store as it is. -/
def OnlyReads (m : Run α) : Prop :=
  ∀ s, storeOf (m s) = s

theorem onlyReads_pure (a : α) : OnlyReads (pure a : Run α) :=
  fun _ => rfl

theorem onlyReads_fail (f : Fault) : OnlyReads (fail f : Run α) :=
  fun _ => rfl

theorem OnlyReads.bind {m : Run α} {f : α → Run β} (hm : OnlyReads m) (hf : ∀ a, OnlyReads (f a)) :
    OnlyReads (m >>= f) := by
  intro s
  have hs := hm s
  rw [run_bind]
  cases h : m s with
  | ok a t =>
      rw [h] at hs
      exact (hf a t).trans hs
  | error e t =>
      rw [h] at hs
      exact hs

theorem onlyReads_reading {k : Store → Run β} (h : ∀ s, OnlyReads (k s)) : OnlyReads (get >>= k) :=
  fun s => h s s

/-- **What only reads can be done again at once.** -/
theorem OnlyReads.again {m : Run α} (h : OnlyReads m) (f : α → Run β) (g : α → β → Run γ) :
    (m >>= fun a => (m >>= f) >>= g a) = m >>= fun a => f a >>= g a := by
  funext s
  have hs := h s
  rw [run_bind, run_bind]
  cases hm : m s with
  | ok a t =>
      rw [hm] at hs
      obtain rfl : t = s := hs
      show ((m >>= f) >>= g a) t = (f a >>= g a) t
      rw [run_bind (m >>= f), run_bind m, hm, run_bind]
  | error e t => rfl

theorem onlyReads_lookUp (env : Env) (word : String) : OnlyReads (lookUp env word) := by
  refine onlyReads_reading fun s => ?_
  cases s.find? word env with
  | some _ => exact onlyReads_pure _
  | none => exact onlyReads_fail _

theorem onlyReads_getProperty (base : Value) (key : String) : OnlyReads (getProperty base key) := by
  refine onlyReads_reading fun s => ?_
  cases base <;> first | exact onlyReads_fail _ | exact onlyReads_pure _

end

/-! ### Paths -/

/-- Names and literals, and members and indices of them. -/
def Expr.IsPath : Expr → Prop
  | .number _ | .string _ | .bool _ | .null | .name _ => True
  | .member inner _ => inner.IsPath
  | .index inner key => inner.IsPath ∧ key.IsPath
  | _ => False

/-- Names, and members and indices of paths. -/
def Expr.IsTarget : Expr → Prop
  | .name _ => True
  | .member inner _ => inner.IsPath
  | .index inner key => inner.IsPath ∧ key.IsPath
  | _ => False

/-- How many steps deep a path is. -/
def Expr.reach : Expr → Nat
  | .member inner _ => inner.reach + 1
  | .index inner key => max inner.reach key.reach + 1
  | _ => 1

/-- The value of a path. -/
def Expr.look (env : Env) : Expr → Run Value
  | .number x => pure (.number x)
  | .string t => pure (.string t)
  | .bool b => pure (.bool b)
  | .null => pure .null
  | .name word => lookUp env word
  | .member inner key => do
    let base ← inner.look env
    getProperty base key
  | .index inner key => do
    let base ← inner.look env
    let k ← key.look env
    let s ← get
    getProperty base (s.key k)
  | _ => fail .invalidTarget

/-- The place of a target. -/
def Expr.found (env : Env) : Expr → Run Place
  | .name word => pure (.name word)
  | .member inner key => do
    let base ← inner.look env
    pure (.property base key)
  | .index inner key => do
    let base ← inner.look env
    let k ← key.look env
    let s ← get
    pure (.property base (s.key k))
  | _ => fail .invalidTarget

theorem exists_eq_succ_of_reach_le {e : Expr} {n : Nat} (h : e.reach ≤ n) : ∃ m, n = m + 1 := by
  have hpos : 0 < e.reach := by
    cases e <;> exact Nat.succ_pos _
  exact ⟨n - 1, by omega⟩

section
variable (env : Env)

theorem onlyReads_look : ∀ e : Expr, OnlyReads (e.look env)
  | .number _ | .string _ | .bool _ | .null => onlyReads_pure _
  | .name word => onlyReads_lookUp env word
  | .member inner key => (onlyReads_look inner).bind fun base => onlyReads_getProperty base key
  | .index inner key =>
      (onlyReads_look inner).bind fun base => (onlyReads_look key).bind fun k =>
        onlyReads_reading fun s => onlyReads_getProperty base (s.key k)
  | .array _ | .object _ | .function _ | .call _ _ | .unary _ _ | .update _ _ _ | .binary _ _ _
  | .logical _ _ _ | .conditional _ _ _ | .assign _ _ _ => onlyReads_fail _

theorem onlyReads_found (t : Expr) : OnlyReads (t.found env) := by
  cases t with
  | name word => exact onlyReads_pure _
  | member inner key => exact (onlyReads_look env inner).bind fun _ => onlyReads_pure _
  | index inner key =>
      exact (onlyReads_look env inner).bind fun _ => (onlyReads_look env key).bind fun _ =>
        onlyReads_reading fun _ => onlyReads_pure _
  | _ => exact onlyReads_fail _

/-- **A path is computed** by as many steps as it is deep. -/
theorem eval_of_isPath : ∀ {e : Expr}, e.IsPath → ∀ {n : Nat}, e.reach ≤ n →
    eval n e env = e.look env
  | .number _, _, _, hn | .string _, _, _, hn | .bool _, _, _, hn | .null, _, _, hn
  | .name _, _, _, hn => by
      obtain ⟨n, rfl⟩ := exists_eq_succ_of_reach_le hn
      rfl
  | .member inner key, h, _, hn => by
      obtain ⟨n, rfl⟩ := exists_eq_succ_of_reach_le hn
      have hpath : inner.IsPath := h
      have hinner : inner.reach ≤ n := Nat.le_of_succ_le_succ hn
      rw [eval, Expr.look, eval_of_isPath hpath hinner]
  | .index inner key, h, _, hn => by
      obtain ⟨n, rfl⟩ := exists_eq_succ_of_reach_le hn
      obtain ⟨hinner, hkey⟩ := Nat.max_le.mp (Nat.le_of_succ_le_succ hn)
      rw [eval, Expr.look, eval_of_isPath h.1 hinner, eval_of_isPath h.2 hkey]

/-- **A target is found** by as many steps as it is deep. -/
theorem evalPlace_of_isTarget {t : Expr} (h : t.IsTarget) {n : Nat} (hn : t.reach ≤ n) :
    evalPlace n t env = t.found env := by
  obtain ⟨n, rfl⟩ := exists_eq_succ_of_reach_le hn
  cases t with
  | name word => rfl
  | member inner key =>
      have hpath : inner.IsPath := h
      have hinner : inner.reach ≤ n := Nat.le_of_succ_le_succ hn
      rw [evalPlace, Expr.found, eval_of_isPath env hpath hinner]
  | index inner key =>
      obtain ⟨hinner, hkey⟩ := Nat.max_le.mp (Nat.le_of_succ_le_succ hn)
      rw [evalPlace, Expr.found, eval_of_isPath env h.1 hinner, eval_of_isPath env h.2 hkey]
  | _ => exact h.elim

theorem Expr.IsTarget.isPath {t : Expr} (h : t.IsTarget) : t.IsPath := by
  cases t with
  | name _ | member _ _ | index _ _ => exact h
  | _ => exact h.elim

/-- The value of a target is what its place holds. -/
theorem Expr.IsTarget.look_eq {t : Expr} (h : t.IsTarget) :
    t.look env = t.found env >>= Place.read env := by
  cases t with
  | name word => rfl
  | member inner key =>
      simp only [Expr.look, Expr.found, bind_assoc, pure_bind]
      rfl
  | index inner key =>
      simp only [Expr.look, Expr.found, bind_assoc, pure_bind]
      rfl
  | _ => exact h.elim

/-- **A compound assignment and its expansion**, which takes one more step. -/
theorem eval_compound {t : Expr} (h : t.IsTarget) (op : BinaryOp) (e : Expr) {n : Nat}
    (hn : t.reach ≤ n) :
    eval (n + 1) (.assign (some op) t e) env =
      eval (n + 2) (.assign none t (.binary op t e)) env := by
  have hplace := evalPlace_of_isTarget env h hn
  have hplace' := evalPlace_of_isTarget env h (Nat.le_succ_of_le hn)
  have hvalue := eval_of_isPath env h.isPath hn
  rw [h.look_eq] at hvalue
  -- the expansion finds its target, and finds it again to read it
  have hagain := (onlyReads_found env t).again (Place.read env) fun place current => do
    let operand ← eval n e env
    let v ← operate op current operand
    place.write env v
    pure v
  simp only [bind_assoc] at hagain
  simp only [eval, hplace, hplace', hvalue, bind_assoc]
  exact hagain.symm

end

/-- **Compound assignments agree with their expansions.**  For a target that is a name, or a member
or an index with names and literals inside, `t op= e` and `t = t op e` end in the same way from
every store, with the same value or fault and the same store: for each number of steps that is
enough to find the target, the expansion having one more, and so also with all steps they need. -/
theorem assign_compound {t : Expr} (h : t.IsTarget) (op : BinaryOp) (e : Expr) (env : Env)
    (s : Store) :
    (∀ n, t.reach ≤ n → eval (n + 1) (.assign (some op) t e) env s =
      eval (n + 2) (.assign none t (.binary op t e)) env s) ∧
    ∀ r, Settles (fun n => eval n (.assign (some op) t e) env) s r ↔
      Settles (fun n => eval n (.assign none t (.binary op t e)) env) s r := by
  have hsteps : ∀ n, t.reach ≤ n → eval (n + 1) (.assign (some op) t e) env s =
      eval (n + 2) (.assign none t (.binary op t e)) env s :=
    fun n hn => by rw [eval_compound env h op e hn]
  refine ⟨hsteps, fun r => ⟨?_, ?_⟩⟩
  · rintro ⟨enough, hr⟩
    refine ⟨max enough t.reach + 2, fun n hn => ?_⟩
    obtain ⟨k, rfl⟩ := Nat.exists_eq_add_of_le' (Nat.le_trans (Nat.le_add_left 2 _) hn)
    show eval (k + 2) (.assign none t (.binary op t e)) env s = r
    rw [← hsteps k (by omega)]
    exact hr (k + 1) (by omega)
  · rintro ⟨enough, hr⟩
    refine ⟨max enough t.reach + 1, fun n hn => ?_⟩
    obtain ⟨k, rfl⟩ := Nat.exists_eq_add_of_le' (Nat.le_trans (Nat.le_add_left 1 _) hn)
    show eval (k + 1) (.assign (some op) t e) env s = r
    rw [hsteps k (by omega)]
    exact hr (k + 2) (by omega)

/-- A store with an object under the name `o`, whose field `x` is ten. -/
def fielded : Store :=
  { Store.empty with
    objects := #[[("x", .number 10)]]
    scopes := #[[("o", ⟨.object 0, true⟩)]] }

/-- `o.x += (o = 5)` writes to the object that `o` was before. -/
theorem assign_compound_ownBase : (Expr.member (.name "o") "x").IsTarget ∧ ∃ u,
    eval 3 (.assign (some .add) (.member (.name "o") "x")
      (.assign none (.name "o") (.number 5))) [⟨0, true⟩] fielded = .ok (.number (10 + 5)) u ∧
    eval 4 (.assign none (.member (.name "o") "x") (.binary .add (.member (.name "o") "x")
      (.assign none (.name "o") (.number 5)))) [⟨0, true⟩] fielded = .ok (.number (10 + 5)) u ∧
    u.fields 0 = [("x", .number (10 + 5))] := by
  have htarget : (Expr.member (.name "o") "x").IsTarget := trivial
  obtain ⟨hsteps, -⟩ := assign_compound htarget .add (.assign none (.name "o") (.number 5))
    [⟨0, true⟩] fielded
  have hrun : ∃ u, eval 3 (.assign (some .add) (.member (.name "o") "x")
      (.assign none (.name "o") (.number 5))) [⟨0, true⟩] fielded = .ok (.number (10 + 5)) u ∧
      u.fields 0 = [("x", .number (10 + 5))] := ⟨_, rfl, rfl⟩
  obtain ⟨u, hu, hfields⟩ := hrun
  exact ⟨htarget, u, hu, (hsteps 2 (by decide)).symm.trans hu, hfields⟩

end Stencil.Script
