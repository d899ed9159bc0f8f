import Stencil.Proofs.Sheets.Lines

/-!
# Values — strings made of values

A value becomes a string where `String` is called with it, where it is added to a string, where a
directive writes it, and by its methods `toString` and, for arrays, `join`.  All of them use the text of
the value, but the `toString` of an array is its `join`: it puts its argument between the elements.

* `Store.textWithin?_eq_joined`: the text of an array is its elements with commas between them.
* `intercalate_eq_iff`: between two elements or more, different separators make different texts.
* `settles_writtenValue`, `settles_interpolating`: a directive adds a value to the output.
* `conversions_agree`: the ways in which an array, a string, a number or a truth value becomes a string
  give one string, except for `toString` of an array with another separator between its elements.
-/

namespace Stencil.Script

/-! ### Separators -/

/-- The elements of a text have their length whatever separates them. -/
theorem exists_length_intercalate (first : String) (rest : List String) : ∃ n, ∀ sep : String,
    (sep.intercalate (first :: rest)).length = n + rest.length * sep.length := by
  induction rest generalizing first with
  | nil => exact ⟨first.length, fun sep => by simp⟩
  | cons second rest ih =>
      obtain ⟨n, hn⟩ := ih second
      refine ⟨first.length + n, fun sep => ?_⟩
      rw [String.intercalate_cons_cons, String.length_append, String.length_append, hn,
        List.length_cons, Nat.succ_mul]
      omega

/-- **Different separators make different texts**, if there is something to separate. -/
theorem intercalate_eq_iff {sep sep' first second : String} {rest : List String} :
    sep.intercalate (first :: second :: rest) = sep'.intercalate (first :: second :: rest) ↔
      sep = sep' := by
  refine ⟨fun h => ?_, fun h => by rw [h]⟩
  have hlength : sep.length = sep'.length := by
    have hlengths := congrArg String.length h
    obtain ⟨n, hn⟩ := exists_length_intercalate first (second :: rest)
    rw [hn, hn] at hlengths
    exact Nat.eq_of_mul_eq_mul_left (Nat.succ_pos rest.length) (Nat.add_left_cancel hlengths)
  rw [String.intercalate_cons_cons, String.intercalate_cons_cons, ← String.toList_inj] at h
  simp only [String.toList_append, List.append_assoc, List.append_cancel_left_eq] at h
  exact String.toList_inj.mp (List.append_inj_left h hlength)

theorem joined_eq_iff (s : Store) (items : Array Value) (sep sep' : String) :
    s.joined items sep = s.joined items sep' ↔ sep = sep' ∨ items.size ≤ 1 := by
  rw [Store.joined, Store.joined, ← Array.length_toList]
  rcases items.toList with _ | ⟨v, _ | ⟨w, rest⟩⟩
  · simp
  · simp
  · simp only [List.map_cons, intercalate_eq_iff, List.length_cons]
    refine (or_iff_left ?_).symm
    omega

/-! ### Arrays -/

namespace Store
variable {s : Store}

theorem elementText_of_elementWithin? {v : Value} {t : String}
    (h : s.elementWithin? s.arrays.size v = some t) : s.elementText v = t := by
  rw [elementWithin?] at h
  rw [elementText]
  split at h
  · rename_i hnull
    rw [if_pos hnull]
    exact Option.some.inj h
  · rename_i hnull
    rw [if_neg hnull, text, textWithin?_succ h, Option.getD_some]

theorem map_of_mapM {α β : Type} {f : α → Option β} {g : α → β} (h : ∀ x y, f x = some y → g x = y) :
    ∀ {l : List α} {ys : List β}, l.mapM f = some ys → ys = l.map g
  | [], _, e => (Option.some.inj e).symm
  | x :: l, ys, e => by
      simp only [List.mapM_cons, Option.pure_def, Option.bind_eq_bind, Option.bind_eq_some_iff] at e
      obtain ⟨y, hy, zs, hzs, e⟩ := e
      rw [List.map_cons, h x y hy, ← map_of_mapM h hzs]
      exact (Option.some.inj e).symm

/-- **The text of an array** is its elements with commas between them, to any depth. -/
theorem textWithin?_eq_joined {a : Ref} (h : s.Acyclic (.array a)) :
    s.textWithin? (s.arrays.size + 1) (.array a) = some (s.joined (s.items a) ",") := by
  obtain ⟨t, ht⟩ := Option.isSome_iff_exists.mp (isSome_textWithin?_of_acyclic h)
  rw [ht]
  rw [textWithin?_array] at ht
  obtain ⟨ts, hts, rfl⟩ := Option.map_eq_some_iff.mp ht
  rw [map_of_mapM (fun _ _ => elementText_of_elementWithin?) hts, joined]

/-- The separator that an array is joined with. -/
def separator (s : Store) (arguments : List Value) : String :=
  match argument arguments 0 with
  | .undefined => ","
  | v => s.text v

end Store

/-! ### Methods -/

section
variable (n : ℕ) (described : String) (arguments : List Value) (s : Store)

theorem callMethod_join (a : Ref) : callMethod (n + 1) described (.array a) "join" arguments s =
    .ok (.string (s.joined (s.items a) (s.separator arguments))) s := rfl

/-- The `toString` of an array is its `join`. -/
theorem callMethod_toString_array (a : Ref) :
    callMethod (n + 1) described (.array a) "toString" arguments s =
      callMethod (n + 1) described (.array a) "join" arguments s := rfl

/-- Strings, numbers and truth values pass over the arguments of `toString`. -/
theorem callMethod_toString {v : Value} (hv : (Method.of? v "toString").isSome)
    (ha : ∀ a, v ≠ .array a) :
    callMethod (n + 1) described v "toString" arguments s = .ok (.string (s.text v)) s := by
  cases v with
  | array a => exact absurd rfl (ha a)
  | string t => rfl
  | number x => rfl
  | bool b => rfl
  | _ => cases hv

end

/-! ### Directives -/

theorem Scopes.lt_of_find? {σ : Scopes} {name : String} {r : Ref} {v : Variable} {env : Env}
    (h : σ.find? name env = some (r, v)) : r < σ.size := by
  by_contra hle
  have hbound := get?_of_find? h
  rw [scope_of_le (Nat.le_of_not_lt hle)] at hbound
  cases hbound

/-- What is assigned where a name is found is found there. -/
theorem Scopes.find?_put_self {σ : Scopes} {name : String} {r : Ref} {v w : Variable} {env : Env}
    (h : σ.find? name env = some (r, v)) : (σ.put r name w).find? name env = some (r, w) := by
  have hr := lt_of_find? h
  induction env with
  | nil => cases h
  | cons frame outer ih =>
      rw [find?_cons] at h
      rw [find?_cons, get?_scope_put _ hr]
      split at h
      · cases h
        rw [if_pos ⟨rfl, rfl⟩]
      · rename_i hnone
        have hne : r ≠ frame.scope := by
          rintro rfl
          have hbound := get?_of_find? h
          rw [hnone] at hbound
          cases hbound
        rw [if_neg fun he => hne he.1, hnone]
        exact ih h

theorem Scopes.find?_put_of_ne {σ : Scopes} {name word : String} {r : Ref} {v : Variable} {env : Env}
    (hr : r < σ.size) (h : word ≠ name) : (σ.put r name v).find? word env = σ.find? word env := by
  refine find?_congr (fun q => ?_) env
  rw [get?_scope_put _ hr, if_neg fun he => h he.2]

/-- Adding a value to a string within the limit. -/
theorem add_string {s : Store} {a : String} {v : Value}
    (h : a.utf8ByteSize + (s.text (s.primitive v)).utf8ByteSize ≤ maxStringBytes) :
    operate .add (.string a) v s = .ok (.string (a ++ s.text (s.primitive v))) s := by
  show add.join a (s.text (s.primitive v)) s = _
  rw [add.join, if_neg (Nat.not_lt_of_le h)]
  rfl

end Stencil.Script

namespace Stencil.Template
open Script

/-- The statement that a value between two texts becomes. -/
def interpolating (before : String) (e : Expr) (after : String) : Stmt :=
  appending (.binary .add (.binary .add (.string before) (writtenValue false e)) (.string after))

end Stencil.Template

namespace Stencil.Script
open Template (writtenValue interpolating)

section
variable {env : Env} {e : Expr} {s t : Store} {v w w' : Value} {q r : Ref}

theorem settles_add {left right : Expr} {u u' : Store} {a b : Value} {result : Outcome Value}
    (hl : Settles (fun n => eval n left env) s (.ok a u))
    (hr : Settles (fun n => eval n right env) u (.ok b u')) (h : operate .add a b u' = result) :
    Settles (fun n => eval n (.binary .add left right) env) s result :=
  .succ (fun _ => by rw [eval])
    (hl.bind_ok (Settles.bind_ok (f := fun _ w => operate .add a w) hr (.of_run h)))

/-- A compound assignment to a name. -/
theorem settles_assignOp {op : BinaryOp} {word : String} {a b : Value} {u : Store}
    (hread : lookUp env word s = .ok a s) (he : Settles (fun n => eval n e env) s (.ok b t))
    (hop : operate op a b t = .ok v t) (hwrite : assignName env word v t = .ok () u) :
    Settles (fun n => eval n (.assign (some op) (.name word) e) env) s (.ok v u) := by
  have hread' : (Place.name word).read env s = .ok a s := hread
  have hwrite' : (Place.name word).write env v t = .ok () u := hwrite
  refine .succ (fun _ => by rw [eval]) ((settles_place word).bind_ok
    ((Settles.of_run hread').bind_ok (he.bind_ok ((Settles.of_run hop).bind_ok ?_))))
  exact (Settles.of_run hwrite').bind_ok (.const (pure v) u)

theorem settles_expr (he : Settles (fun n => eval n e env) s (.ok v t)) :
    Settles (fun n => exec n (.expr e) env) s (.ok .normal t) :=
  .succ (fun _ => by rw [exec]) (he.bind_ok (.const (pure Completion.normal) t))

/-- What a directive writes of a value is the value, which is kept. -/
theorem settles_writtenValue (he : Settles (fun n => eval n e env) s (.ok v t))
    (ht : Scopes.find? t.scopes "__t" env = some (r, ⟨w, true⟩)) (hv : v.isNullish = false) :
    Settles (fun n => eval n (writtenValue false e) env) s
      (.ok v (t.withScopes (Scopes.put t.scopes r "__t" ⟨v, true⟩))) := by
  have hassign : assignName env "__t" v t =
      .ok () (t.withScopes (Scopes.put t.scopes r "__t" ⟨v, true⟩)) := by
    rw [assignName_run, ht]
    rfl
  have hkept : lookUp env "__t" (t.withScopes (Scopes.put t.scopes r "__t" ⟨v, true⟩)) =
      .ok v (t.withScopes (Scopes.put t.scopes r "__t" ⟨v, true⟩)) := by
    rw [lookUp_run, Store.scopes_withScopes, Scopes.find?_put_self ht]
  refine settles_conditional (settles_equalNull (settles_assign he hassign)) ?_
  rw [hv]
  exact settles_name hkept

/-- **A directive adds the text of a value to the output**, within the limit. -/
theorem settles_interpolating {out before after : String}
    (hout : lookUp env "__p" s = .ok (.string out) s)
    (he : Settles (fun n => eval n e env) s (.ok v t))
    (hp : Scopes.find? t.scopes "__p" env = some (q, ⟨w', true⟩))
    (ht : Scopes.find? t.scopes "__t" env = some (r, ⟨w, true⟩)) (hv : v.isNullish = false)
    (hlimit : (out ++ (before ++ t.text (t.primitive v) ++ after)).utf8ByteSize ≤ maxStringBytes) :
    ∃ u, Settles (fun n => exec n (interpolating before e after) env) s (.ok .normal u) ∧
      Scopes.find? u.scopes "__p" env =
        some (q, ⟨.string (out ++ (before ++ t.text (t.primitive v) ++ after)), true⟩) := by
  obtain ⟨t', ht'⟩ : ∃ t', t' = t.withScopes (Scopes.put t.scopes r "__t" ⟨v, true⟩) := ⟨_, rfl⟩
  obtain ⟨text, htext⟩ : ∃ text, text = t.text (t.primitive v) := ⟨_, rfl⟩
  rw [← htext] at hlimit ⊢
  simp only [String.utf8ByteSize_append] at hlimit
  have hkept : t'.text (t'.primitive v) = text := by
    rw [ht', Store.text_withScopes, Store.primitive_withScopes, htext]
  have hwritten := settles_writtenValue he ht hv
  rw [← ht'] at hwritten
  have hbegin : Settles
      (fun n => eval n (.binary .add (.string before) (writtenValue false e)) env) s
      (.ok (.string (before ++ text)) t') := by
    refine settles_add (settles_string before) hwritten ?_
    rw [add_string (by rw [hkept]; omega), hkept]
  -- the limit on the whole output bounds every sum on the way to it
  have hbytes : out.utf8ByteSize + (before ++ text ++ after).utf8ByteSize ≤ maxStringBytes := by
    rwa [String.utf8ByteSize_append, String.utf8ByteSize_append]
  have hfront : (before ++ text).utf8ByteSize + after.utf8ByteSize ≤ maxStringBytes := by
    rw [String.utf8ByteSize_append]
    omega
  have hline : Settles (fun n => eval n (.binary .add (.binary .add (.string before)
      (writtenValue false e)) (.string after)) env) s
      (.ok (.string (before ++ text ++ after)) t') :=
    settles_add hbegin (settles_string after) (add_string hfront)
  have hall : operate .add (.string out) (.string (before ++ text ++ after)) t' =
      .ok (.string (out ++ (before ++ text ++ after))) t' :=
    add_string hbytes
  have hp' : Scopes.find? t'.scopes "__p" env = some (q, ⟨w', true⟩) := by
    rw [ht', Store.scopes_withScopes, Scopes.find?_put_of_ne (Scopes.lt_of_find? ht) (by decide), hp]
  refine ⟨t'.withScopes (Scopes.put t'.scopes q "__p"
    ⟨.string (out ++ (before ++ text ++ after)), true⟩), ?_, Scopes.find?_put_self hp'⟩
  refine settles_expr (settles_assignOp hout hline hall ?_)
  rw [assignName_run, hp']
  rfl

end

/-! ### All conversions -/

/-- Arrays, strings, numbers and truth values. -/
inductive Value.Shown : Value → Prop where
  | array (a : Ref) : Shown (.array a)
  | string (t : String) : Shown (.string t)
  | number (x : Float) : Shown (.number x)
  | bool (b : Bool) : Shown (.bool b)

/-- **The ways in which a value becomes a string**, with what they give: the function `String`, an empty
string that it is added to, a directive that writes it, and its methods.  The `toString` of an array is
its `join`, and gives something else with another separator between two elements or more. -/
structure Conversions (s : Store) (v : Value) (text : String) : Prop where
  function {f : Ref} (hf : s.callable f = .native (.plain .string)) (n : ℕ) (more : List Value) :
    call (n + 1) (.function f) (v :: more) s = .ok (.string text) s
  added : operate .add (.string "") v s =
    if maxStringBytes < text.utf8ByteSize then .error (.fault .stringLength) s
    else .ok (.string text) s
  interpolated {s' : Store} {env : Env} {e : Expr} {q r : Ref} {w w' : Value} {out : String}
    (before after : String) (hout : lookUp env "__p" s' = .ok (.string out) s')
    (he : Settles (fun n => eval n e env) s' (.ok v s))
    (hp : Scopes.find? s.scopes "__p" env = some (q, ⟨w', true⟩))
    (ht : Scopes.find? s.scopes "__t" env = some (r, ⟨w, true⟩))
    (hlimit : (out ++ (before ++ text ++ after)).utf8ByteSize ≤ maxStringBytes) :
    ∃ u, Settles (fun n => exec n (interpolating before e after) env) s' (.ok .normal u) ∧
      Scopes.find? u.scopes "__p" env = some (q, ⟨.string (out ++ (before ++ text ++ after)), true⟩)
  joined {a : Ref} (ha : v = .array a) (n : ℕ) (described : String) {arguments : List Value}
    (h : argument arguments 0 = .undefined) :
    callMethod (n + 1) described v "join" arguments s = .ok (.string text) s
  method (n : ℕ) (described : String) (arguments : List Value) :
    callMethod (n + 1) described v "toString" arguments s = .ok (.string text) s ↔
      ∀ a, v = .array a → s.separator arguments = "," ∨ (s.items a).size ≤ 1

namespace Value.Shown
variable {v : Value}

theorem not_nullish (h : v.Shown) : v.isNullish = false := by
  cases h <;> rfl

theorem text_primitive (h : v.Shown) (s : Store) : s.text (s.primitive v) = s.text v := by
  cases h <;> rfl

end Value.Shown

/-- **Conversions agree.**  An array that does not contain itself, a string, a number or a truth value
has a text, and whatever makes a string of it gives this text, within the limit; but `toString` of an
array puts what it is called with between the elements. -/
theorem conversions_agree {s : Store} {v : Value} (hv : v.Shown) (h : s.Acyclic v) :
    ∃ text, s.textWithin? (s.arrays.size + 1) v = some text ∧ Conversions s v text := by
  obtain ⟨text, htext⟩ := Option.isSome_iff_exists.mp (Store.isSome_textWithin?_of_acyclic h)
  have hwhole : s.text v = text := by rw [Store.text, htext, Option.getD_some]
  have hprimitive : s.text (s.primitive v) = text := (hv.text_primitive s).trans hwhole
  have harray {a : Ref} (ha : v = .array a) : text = s.joined (s.items a) "," := by
    subst ha
    exact Option.some.inj (htext.symm.trans (Store.textWithin?_eq_joined h))
  refine ⟨text, htext, ?function, ?added, ?interpolated, ?joined, ?method⟩
  case function =>
    intro f hf n more
    rw [call_plain hf, ← hwhole]
    rfl
  case added =>
    have hadd : operate .add (.string "") v s = add.join "" (s.text (s.primitive v)) s := rfl
    rw [hadd, hprimitive, add.join, String.utf8ByteSize_empty, Nat.zero_add, String.empty_append]
    split <;> rfl
  case interpolated =>
    intro s' env e q r w w' out before after hout he hp ht hlimit
    rw [← hprimitive] at hlimit ⊢
    exact settles_interpolating hout he hp ht hv.not_nullish hlimit
  case joined =>
    intro a ha n described arguments hnone
    rw [harray ha, ha, callMethod_join, Store.separator, hnone]
  case method =>
    intro n described arguments
    cases hv with
    | array a =>
        rw [callMethod_toString_array, callMethod_join, harray rfl]
        simp only [EStateM.Result.ok.injEq, Value.string.injEq, and_true, joined_eq_iff,
          Value.array.injEq, forall_eq']
    | _ =>
        refine iff_of_true ?_ (by simp)
        rw [callMethod_toString n described arguments s rfl (by simp), hwhole]

/-- A store in which each array holds only later ones has no array that contains itself. -/
theorem Store.acyclic_of_lt {s : Store} (h : ∀ {a b : Ref}, s.Holds a b → a < b) (v : Value) :
    s.Acyclic v := by
  have later : ∀ {a b : Ref}, Relation.TransGen s.Holds a b → a < b := by
    intro a b hab
    induction hab with
    | single hab => exact h hab
    | tail _ hab ih => exact ih.trans (h hab)
  exact fun _ b _ _ hloop => Nat.lt_irrefl b (later hloop)

/-- A store with the array `[true, [null, "x"]]`. -/
def arrayWithHole : Store :=
  { Store.empty with arrays := #[#[.bool true, .array 1], #[.null, .string "x"]] }

/-- The text of the array is `true,,x`, and with an argument its `toString` is something else. -/
theorem conversions_agree_arrayWithHole : Value.Shown (.array 0) ∧
    arrayWithHole.Acyclic (.array 0) ∧ Conversions arrayWithHole (.array 0) "true,,x" ∧
    callMethod 1 "toString" (.array 0) "toString" [.string "-"] arrayWithHole ≠
      .ok (.string "true,,x") arrayWithHole := by
  have hacyclic : arrayWithHole.Acyclic (.array 0) := by
    refine Store.acyclic_of_lt (fun {a b} hab => ?_) _
    match a with
    | 0 => simp_all [Store.Holds, Store.items, arrayWithHole]
    | 1 => simp_all [Store.Holds, Store.items, arrayWithHole]
    | a + 2 => simp [Store.Holds, Store.items, arrayWithHole] at hab
  obtain ⟨text, htext, hagree⟩ := conversions_agree (.array 0) hacyclic
  obtain rfl : "true,,x" = text := Option.some.inj (Eq.trans (by decide +kernel) htext)
  refine ⟨.array 0, hacyclic, hagree, fun hmethod => ?_⟩
  rcases (hagree.method 0 "toString" [.string "-"]).mp hmethod 0 rfl with hseparator | hsize
  · exact absurd hseparator (by decide)
  · exact absurd hsize (by decide)

end Stencil.Script
