import Stencil.Proofs.Jobs.Scoping
import Stencil.Proofs.Numbers.Sizes
import Stencil.Proofs.Twin.Heap

/-!
# Jobs — what fits the limits

A string fits if it has no more than `maxStringBytes` bytes, an array if it has no more than
`maxArrayElements` elements.  A store fits if all strings and arrays in it do, the keys of its objects
and the literals of its closures among them.

* `Op.fits_of_run`: what an operation makes of what fits, fits, unless it is one of those that ask for
  no limit (`Op.Unguarded`).
* `Op.run_growth`: the others that build a string or let an array grow fail just where the limit is
  exceeded.
* `Op.breaches_push`: an array that is full grows when a value is pushed to it.
* `fits_importDocument`: data that fits makes a store that does.
-/

namespace Stencil.Script
open Stencil

/-! ### Values -/

/-- **Strings within the limit.** -/
def TextFits (t : String) : Prop :=
  t.utf8ByteSize ≤ maxStringBytes

instance (t : String) : Decidable (TextFits t) :=
  inferInstanceAs (Decidable (_ ≤ _))

/-- Values that are no strings beyond the limit. -/
def Value.Fits : Value → Prop
  | .string t => TextFits t
  | _ => True

/-- **Elements or arguments within the limit**, in number and each. -/
structure ListFits (vs : List Value) : Prop where
  length : vs.length ≤ maxArrayElements
  values : ∀ v ∈ vs, v.Fits

/-- Fields whose keys and values are within the limit. -/
def Fields.Fits (fields : Fields) : Prop :=
  ∀ field ∈ fields, TextFits field.1 ∧ field.2.Fits

theorem textFits_of_le {t : String} (h : t.utf8ByteSize ≤ 10000) : TextFits t :=
  h.trans (by decide)

theorem TextFits.sublist {t : String} (h : TextFits t) {cs : List Char} (hc : cs.Sublist t.toList) :
    TextFits (String.ofList cs) := by
  rw [TextFits, Number.utf8ByteSize_ofList]
  exact (Number.bytes_sublist hc).trans (Number.bytes_toList t ▸ h)

/-! ### Trees -/

mutual

/-- Expressions whose strings and keys are within the limit, and whose arrays and arguments. -/
def Expr.Fits : Expr → Prop
  | .number _ => True
  | .string t => TextFits t
  | .bool _ => True
  | .null => True
  | .name _ => True
  | .array items => items.length ≤ maxArrayElements ∧ FitsAll items
  | .object fields => FitsFields fields
  | .function definition => definition.Fits
  | .member object key => object.Fits ∧ TextFits key
  | .index object key => object.Fits ∧ key.Fits
  | .call callee arguments => callee.Fits ∧ arguments.length ≤ maxArrayElements ∧ FitsAll arguments
  | .unary _ operand => operand.Fits
  | .update _ _ target => target.Fits
  | .binary _ left right => left.Fits ∧ right.Fits
  | .logical _ left right => left.Fits ∧ right.Fits
  | .conditional test yes no => test.Fits ∧ yes.Fits ∧ no.Fits
  | .assign _ target value => target.Fits ∧ value.Fits

/-- Lists of expressions that fit. -/
def FitsAll : List Expr → Prop
  | [] => True
  | e :: rest => e.Fits ∧ FitsAll rest

/-- Fields that fit. -/
def FitsFields : List (String × Expr) → Prop
  | [] => True
  | (key, value) :: rest => TextFits key ∧ value.Fits ∧ FitsFields rest

/-- Functions that fit. -/
def Definition.Fits : Definition → Prop
  | .mk _ _ _ body => FitsBody body

/-- Statements that fit. -/
def Stmt.Fits : Stmt → Prop
  | .expr e => e.Fits
  | .declare _ bindings => FitsBindings bindings
  | .function definition => definition.Fits
  | .block body => FitsBody body
  | .branch test yes no => test.Fits ∧ yes.Fits ∧ FitsStmt no
  | .loop init test update body => FitsStmt init ∧ FitsOption test ∧ FitsOption update ∧ body.Fits
  | .forIn _ subject body => subject.Fits ∧ body.Fits
  | .forOf _ subject body => subject.Fits ∧ body.Fits
  | .whileLoop test body => test.Fits ∧ body.Fits
  | .break => True
  | .continue => True
  | .return value => FitsOption value
  | .empty => True

/-- Optional expressions that fit. -/
def FitsOption : Option Expr → Prop
  | none => True
  | some e => e.Fits

/-- Optional statements that fit. -/
def FitsStmt : Option Stmt → Prop
  | none => True
  | some s => s.Fits

/-- Bindings that fit. -/
def FitsBindings : List (String × Option Expr) → Prop
  | [] => True
  | (_, value) :: rest => FitsOption value ∧ FitsBindings rest

/-- Statement lists that fit. -/
def FitsBody : List Stmt → Prop
  | [] => True
  | s :: rest => s.Fits ∧ FitsBody rest

end

theorem Definition.fits_iff {d : Definition} : d.Fits ↔ FitsBody d.body := by
  cases d
  exact Iff.rfl

/-! ### Stores -/

/-- Whether all variables of scopes are within the limit. -/
def Scopes.Fit (σ : Scopes) : Prop :=
  ∀ r name v, (σ.scope r).get? name = some v → v.value.Fits

/-- Arrays and objects within the limits. -/
structure Store.HeapFits (s : Store) : Prop where
  items : ∀ a, ListFits (s.items a).toList
  fields : ∀ o, (s.fields o).Fits

/-- **Stores within the limits.** -/
structure Store.Fits (s : Store) : Prop extends s.HeapFits where
  closures : ∀ d env, .closure d env ∈ s.functions → d.Fits
  bindings : Scopes.Fit s.scopes

section
variable {s : Store}

theorem Store.HeapFits.size_items (h : s.HeapFits) (a : Ref) : (s.items a).size ≤ maxArrayElements :=
  (h.items a).length

theorem Store.HeapFits.mem_items (h : s.HeapFits) {a : Ref} {v : Value} (hv : v ∈ s.items a) :
    v.Fits :=
  (h.items a).values v (Array.mem_toList_iff.mpr hv)

/-! ### Values made of others -/

theorem fits_argument {arguments : List Value} (h : ∀ v ∈ arguments, v.Fits) (i : Nat) :
    (argument arguments i).Fits := by
  rw [argument, List.getD_eq_getElem?_getD]
  cases e : arguments[i]? with
  | none => trivial
  | some v => exact h v (List.mem_of_getElem? e)

theorem textFits_char (c : Char) : TextFits c.toString := by
  refine textFits_of_le ?_
  rw [Char.toString_eq_singleton, String.utf8ByteSize_singleton]
  exact c.utf8Size_le_four.trans (by decide)

theorem textFits_typeName (v : Value) : TextFits v.typeName := by
  cases v <;> simp only [Value.typeName] <;> decide

theorem textFits_number (x : Float) : TextFits (Number.text x) :=
  textFits_of_le (Number.bytes_text x)

/-- An index is written in few bytes. -/
theorem textFits_index {i count : Nat} (hi : i < count) (hc : count ≤ maxStringBytes) :
    TextFits (Number.natText i) := by
  have hlimit : maxStringBytes ≤ 10 ^ 9 := by decide
  exact textFits_of_le ((Number.bytes_natText (k := 9) (by decide) (by omega)).trans (by decide))

theorem fits_loopKeys (h : s.HeapFits) {v : Value} (hv : v.Fits) :
    ∀ key ∈ s.loopKeys v, key.Fits := by
  have indices {count : Nat} (hc : count ≤ maxStringBytes) : ∀ key ∈ indexKeys count, key.Fits := by
    intro key hkey
    obtain ⟨i, hi, rfl⟩ := List.mem_map.mp hkey
    exact textFits_index (List.mem_range.mp hi) hc
  cases v with
  | object o =>
      intro key hkey
      simp only [Store.loopKeys, Fields.keys, List.mem_map] at hkey
      obtain ⟨_, ⟨field, hfield, rfl⟩, rfl⟩ := hkey
      exact (h.fields o field hfield).1
  | array a => exact indices ((h.size_items a).trans (by decide))
  | string t =>
      refine indices (Nat.le_trans ?_ hv)
      rw [← Number.bytes_toList, ← String.length_toList]
      exact Number.length_le_bytes _
  | _ => exact fun key hkey => (List.not_mem_nil hkey).elim

theorem fits_entries (h : s.HeapFits) (v : Value) : ∀ e ∈ s.entries v, e.1.Fits ∧ e.2.Fits := by
  intro e he
  cases v with
  | array a =>
      simp only [Store.entries, List.mem_map] at he
      obtain ⟨⟨v, i⟩, hmem, rfl⟩ := he
      exact ⟨(h.items a).values v (List.fst_mem_of_mem_zipIdx hmem), trivial⟩
  | object o =>
      simp only [Store.entries, List.mem_map] at he
      obtain ⟨⟨key, v⟩, hmem, rfl⟩ := he
      exact ⟨(h.fields o _ hmem).2, (h.fields o _ hmem).1⟩
  | _ => exact (List.not_mem_nil he).elim

/-- A list or an object is visited as often as it has elements or fields. -/
theorem length_entries (s : Store) (v : Value) : (s.entries v).length = match v with
    | .array a => (s.items a).size
    | .object o => (s.fields o).length
    | _ => 0 := by
  cases v <;> simp [Store.entries]

theorem Fields.Fits.get? {fields : Fields} (h : fields.Fits) {key : String} {v : Value}
    (hv : fields.get? key = some v) : v.Fits := by
  rw [Fields.get?, List.lookup_eq_some_iff] at hv
  obtain ⟨l, r, rfl, -⟩ := hv
  exact (h (key, v) (by simp)).2

theorem Fields.Fits.put {fields : Fields} (h : fields.Fits) {key : String} {v : Value}
    (hk : TextFits key) (hv : v.Fits) : (fields.put key v).Fits := by
  induction fields with
  | nil =>
      intro field hf
      obtain rfl := List.mem_singleton.mp hf
      exact ⟨hk, hv⟩
  | cons first rest ih =>
      obtain ⟨k, w⟩ := first
      have hfirst := h _ List.mem_cons_self
      have hrest : Fields.Fits rest := fun field hf => h field (List.mem_cons_of_mem _ hf)
      rw [Fields.put]
      split <;> intro field hf <;> rcases List.mem_cons.mp hf with rfl | hf
      · exact ⟨hfirst.1, hv⟩
      · exact hrest field hf
      · exact hfirst
      · exact ih hrest field hf

theorem Fields.length_put (fields : Fields) (key : String) (v : Value) :
    fields.length ≤ (fields.put key v).length := by
  induction fields with
  | nil => exact Nat.zero_le _
  | cons first rest ih =>
      rw [Fields.put]
      split
      · exact Nat.le_refl _
      · exact Nat.succ_le_succ ih

end

/-! ### Operations -/

/-- What operations rely on.  An array that is made has no more elements than the limit or than some
object has fields. -/
def Op.Fits (s : Store) : Op → Prop
  | .newArray items => (∀ v ∈ items, v.Fits) ∧
    (items.size ≤ maxArrayElements ∨ ∃ o, items.size ≤ (s.fields o).length)
  | .newObject fields => Fields.Fits fields
  | .newFunction c => ∀ d env, c = .closure d env → d.Fits
  | .define _ _ v _ | .declare _ _ v _ | .assign _ _ v => v.Fits
  | .getProperty base _ => base.Fits
  | .setProperty base _ v => base.Fits ∧ v.Fits
  | .unary _ v | .loopItems v => v.Fits
  | .binary _ v w => v.Fits ∧ w.Fits
  | .arrayMethod _ _ arguments | .numberMethod _ _ arguments | .plain _ arguments =>
    ListFits arguments
  | .stringMethod _ t arguments => TextFits t ∧ ListFits arguments
  | .collect _ items returned =>
    ListFits items ∧ returned.length = items.length ∧ ∀ v ∈ returned, v.Fits
  | _ => True

/-- What operations give. -/
def Op.Gives : (o : Op) → o.Result → Store → Prop
  | .look, a, t => a = t
  | .fail _, _, _ => True
  | .newScope _ _, _, _ => True
  | .define _ _ _ _, _, _ | .declare _ _ _ _, _, _ | .declareVar _ _, _, _ => True
  | .assign _ _ _, _, _ | .setProperty _ _ _, _, _ => True
  | .loopItems _, items, _ => ∀ v ∈ items, Value.Fits v
  | .newArray _, a, _ | .newObject _, a, _ | .newFunction _, a, _ => Value.Fits a
  | .lookUp _ _, a, _ | .typeOfName _ _, a, _ | .getProperty _ _, a, _ => Value.Fits a
  | .unary _ _, a, _ | .binary _ _ _, a, _ => Value.Fits a
  | .arrayMethod _ _ _, a, _ | .stringMethod _ _ _, a, _ | .numberMethod _ _ _, a, _ => Value.Fits a
  | .plain _ _, a, _ | .collect _ _ _, a, _ => Value.Fits a

/-- **Operations that ask for no limit.**  A new array is too large only where it is made of the
fields of an object, a key only where it is made of an array. -/
def Op.Unguarded : Op → Prop
  | .newArray items => maxArrayElements < items.size
  | .setProperty (.object _) key _ => ¬ TextFits key
  | .arrayMethod m _ _ => m = .push ∨ m = .concat ∨ m = .join
  | .stringMethod m _ _ => m = .toUpperCase ∨ m = .toLowerCase ∨ m = .split
  | .plain n _ => n = .string ∨ n = .escape ∨ n = .unescape ∨ n = .keys ∨ n = .values
  | _ => False

/-- Whether an operation leaves or gives something beyond the limits. -/
def Op.Breaches (o : Op) (s : Store) : Prop :=
  ∃ a t, o.run s = .ok a t ∧ ¬ (t.Fits ∧ o.Gives a t)

/-! ### Elements that change -/

theorem ListFits.sublist {vs ws : List Value} (h : ListFits vs) (hw : ws.Sublist vs) : ListFits ws :=
  ⟨hw.length_le.trans h.length, fun v hv => h.values v (hw.subset hv)⟩

/-- An element that is written, where there is one or the limit allows one. -/
theorem ListFits.setItem {items : Array Value} (h : ListFits items.toList) {i : Nat}
    (hi : ¬ (items.size ≤ i ∧ maxArrayElements ≤ i)) {v : Value} (hv : v.Fits) :
    ListFits (setItem items i v).toList := by
  have hsize : items.size ≤ maxArrayElements := h.length
  rw [Script.setItem]
  split
  · refine ⟨by simpa using hsize, fun w hw => ?_⟩
    rw [Array.toList_setIfInBounds] at hw
    rcases List.mem_or_eq_of_mem_set hw with hw | rfl
    · exact h.values w hw
    · exact hv
  · refine ⟨by simp; omega, fun w hw => ?_⟩
    simp only [Array.toList_push, Array.toList_append, Array.toList_replicate, List.mem_append,
      List.mem_replicate, List.mem_singleton] at hw
    rcases hw with (hw | ⟨-, rfl⟩) | rfl
    · exact h.values w hw
    · trivial
    · exact hv

theorem ListFits.resize {items : Array Value} (h : ListFits items.toList) {length : Nat}
    (hl : length ≤ maxArrayElements) : ListFits (resize items length).toList := by
  rw [Script.resize]
  refine ⟨by simp; omega, fun w hw => ?_⟩
  simp only [Array.toList_append, Array.toList_replicate, List.mem_append, List.mem_replicate] at hw
  rcases hw with hw | ⟨-, rfl⟩
  · rw [Array.take_eq_extract, Array.toList_extract] at hw
    exact h.values w (List.mem_of_mem_drop (List.mem_of_mem_take hw))
  · trivial

theorem newLength?_le {x : Float} {length : Nat} (h : newLength? x = some length) :
    length ≤ maxArrayElements := by
  rw [newLength?] at h
  split at h
  · split at h
    · rename_i n _ hn
      cases h
      omega
    · cases h
  · cases h

/-! ### Computations that fit -/

/-- Whether a computation leaves arrays and objects within the limits, and what it gives. -/
def FitsRun {α : Type} (Q : α → Prop) (m : Run α) (s : Store) : Prop :=
  ∀ a t, m s = .ok a t → t.HeapFits ∧ Q a

section
variable {α β : Type} {s : Store} {Q : α → Prop} {R : β → Prop}

theorem fitsRun_pure {a : α} (h : s.HeapFits) (ha : Q a) : FitsRun Q (pure a) s := by
  rintro _ _ ⟨⟩
  exact ⟨h, ha⟩

theorem fitsRun_fail (f : Fault) : FitsRun Q (Script.fail f) s :=
  nofun

theorem fitsRun_reading {k : Store → Run α} (h : FitsRun Q (k s) s) : FitsRun Q (get >>= k) s :=
  h

theorem FitsRun.bind {m : Run α} {k : α → Run β} (h : FitsRun Q m s)
    (hk : ∀ a t, t.HeapFits → Q a → FitsRun R (k a) t) : FitsRun R (m >>= k) s := by
  intro b u hr
  obtain ⟨a, t, hm, hr⟩ := bind_eq_ok hr
  obtain ⟨ht, ha⟩ := h a t hm
  exact hk a t ht ha b u hr

theorem fitsRun_newArray (h : s.HeapFits) {items : Array Value} (hi : ListFits items.toList) :
    FitsRun Value.Fits (newArray items) s := by
  rintro _ _ ⟨⟩
  refine ⟨⟨fun a => ?_, h.fields⟩, trivial⟩
  rw [Store.items_push]
  split
  · exact hi
  · exact h.items a

theorem fitsRun_newObject (h : s.HeapFits) {fields : Fields} (hf : fields.Fits) :
    FitsRun Value.Fits (newObject fields) s := by
  rintro _ _ ⟨⟩
  refine ⟨⟨h.items, fun o => ?_⟩, trivial⟩
  rw [Store.fields_push]
  split
  · exact hf
  · exact h.fields o

theorem fitsRun_changeItems (h : s.HeapFits) {a : Ref} {f : Array Value → Array Value}
    (hf : ListFits (f (s.items a)).toList) : FitsRun (fun _ => True) (changeItems a f) s := by
  rintro _ _ ⟨⟩
  refine ⟨⟨fun c => ?_, h.fields⟩, trivial⟩
  rw [Store.items_modify]
  split
  · rename_i hc
    exact hc.1 ▸ hf
  · exact h.items c

theorem fitsRun_changeFields (h : s.HeapFits) {o : Ref} {f : Fields → Fields}
    (hf : Fields.Fits (f (s.fields o))) : FitsRun (fun _ => True) (changeFields o f) s := by
  rintro _ _ ⟨⟩
  refine ⟨⟨h.items, fun c => ?_⟩, trivial⟩
  rw [Store.fields_modify]
  split
  · rename_i hc
    exact hc.1 ▸ hf
  · exact h.fields c

end

/-! ### Properties and operators -/

section
variable {s : Store} (h : s.HeapFits)
include h

theorem fits_itemAt (a : Ref) (key : String) : (itemAt (s.items a) key).Fits := by
  rw [itemAt]
  split
  · trivial
  · split
    · rename_i i _
      rw [Array.getD_eq_getD_getElem?]
      cases e : (s.items a)[i]? with
      | none => trivial
      | some v => exact h.mem_items (Array.mem_of_getElem? e)
    · trivial

omit h in
theorem fits_characterAt (t key : String) : (characterAt t key).Fits := by
  rw [characterAt]
  split
  · trivial
  · split
    · exact textFits_char _
    · trivial

theorem fitsRun_getProperty (base : Value) (key : String) :
    FitsRun Value.Fits (getProperty base key) s := by
  refine fitsRun_reading ?_
  cases base with
  | undefined | null => exact fitsRun_fail _
  | object o =>
      refine fitsRun_pure h ?_
      cases e : (s.fields o).get? key with
      | none => trivial
      | some v => exact (h.fields o).get? e
  | array a => exact fitsRun_pure h (fits_itemAt h a key)
  | string t => exact fitsRun_pure h (fits_characterAt t key)
  | _ => exact fitsRun_pure h trivial

theorem fitsRun_setProperty {base v : Value} {key : String} (hv : v.Fits)
    (hg : ¬ (Op.setProperty base key v).Unguarded) :
    FitsRun (fun _ => True) (setProperty base key v) s := by
  cases base with
  | undefined | null => exact fitsRun_fail _
  | object o =>
      exact fitsRun_changeFields h ((h.fields o).put (Decidable.not_not.mp hg) hv)
  | array a =>
      unfold setProperty
      dsimp only
      split
      · refine fitsRun_reading ?_
        split
        · exact fitsRun_fail _
        · rename_i hi
          exact fitsRun_changeItems h ((h.items a).setItem hi hv)
      · split
        · refine fitsRun_reading ?_
          split
          · rename_i length hlength
            exact fitsRun_changeItems h ((h.items a).resize (newLength?_le hlength))
          · exact fitsRun_fail _
        · exact fitsRun_pure h trivial
  | _ => exact fitsRun_pure h trivial

theorem fitsRun_applyUnary (op : UnaryOp) (v : Value) : FitsRun Value.Fits (applyUnary op v) s := by
  refine fitsRun_reading ?_
  cases op
  case typeof => exact fitsRun_pure h (textFits_typeName v)
  all_goals exact fitsRun_pure h trivial

theorem fitsRun_join (a b : String) : FitsRun Value.Fits (add.join a b) s := by
  rw [add.join]
  split
  · exact fitsRun_fail _
  · rename_i hlimit
    refine fitsRun_pure h ?_
    show (a ++ b).utf8ByteSize ≤ _
    rw [String.utf8ByteSize_append]
    exact Nat.le_of_not_lt hlimit

theorem fitsRun_operate (op : BinaryOp) (v w : Value) : FitsRun Value.Fits (operate op v w) s := by
  cases op
  case add =>
    refine fitsRun_reading ?_
    split
    · exact fitsRun_join h _ _
    · exact fitsRun_join h _ _
    · exact fitsRun_pure h trivial
  all_goals exact fitsRun_reading (fitsRun_pure h trivial)

theorem fitsRun_loopItems (v : Value) :
    FitsRun (fun items => ∀ v ∈ items, Value.Fits v) (loopItems v) s := by
  refine fitsRun_reading ?_
  cases v with
  | array a => exact fitsRun_pure h (h.items a).values
  | string t =>
      refine fitsRun_pure h fun v hv => ?_
      obtain ⟨c, -, rfl⟩ := List.mem_map.mp hv
      exact textFits_char c
  | _ => exact fitsRun_fail _

/-! ### What the language provides -/

omit h in
theorem fits_foundAt (i : Option Nat) : (foundAt i).Fits := by
  cases i <;> trivial

theorem fitsRun_arrayMethod {m : ArrayMethod} (a : Ref) (arguments : List Value)
    (hg : ¬ (Op.arrayMethod m a arguments).Unguarded) :
    FitsRun Value.Fits (m.run a arguments) s := by
  cases m
  case push | join | concat => exact absurd (by simp [Op.Unguarded]) hg
  case pop =>
    have hpop : ((s.items a).pop.toList).Sublist (s.items a).toList := by
      rw [Array.toList_pop]
      exact List.dropLast_sublist _
    refine fitsRun_reading ((fitsRun_changeItems h ((h.items a).sublist hpop)).bind
      fun _ t ht _ => fitsRun_pure ht ?_)
    cases e : (s.items a).back? with
    | none => trivial
    | some v => exact h.mem_items (Array.mem_of_back? e)
  case slice =>
    refine fitsRun_reading (fitsRun_newArray h ((h.items a).sublist ?_))
    rw [Array.toList_extract]
    exact (List.take_sublist _ _).trans (List.drop_sublist _ _)
  all_goals refine fitsRun_reading (fitsRun_pure h ?_)
  case indexOf => exact fits_foundAt _
  case includes => trivial

omit h in
theorem bytes_repeatText (t : String) (count : Nat) :
    (Text.repeatText t count).utf8ByteSize = count * t.utf8ByteSize := by
  rw [Text.repeatText]
  split
  · rename_i hempty
    rw [String.isEmpty_iff_utf8ByteSize_eq_zero.mp hempty]
    rfl
  · induction count with
    | zero => simp [Nat.repeat]
    | succ count ih => rw [Nat.repeat, String.utf8ByteSize_append, ih, Nat.succ_mul]

theorem fitsRun_repeated (t : String) (count : Number.Whole) :
    FitsRun Value.Fits (repeated t count) s := by
  unfold repeated
  split
  · split
    · exact fitsRun_fail _
    · split
      · exact fitsRun_fail _
      · rename_i hlimit
        refine fitsRun_pure h ?_
        show (Text.repeatText _ _).utf8ByteSize ≤ _
        rw [bytes_repeatText]
        exact Nat.le_of_not_lt hlimit
  · exact fitsRun_fail _

omit h in
theorem textFits_charText (cs : List Char) (i : Number.Whole) : TextFits (charText cs i) := by
  have hempty : TextFits "" := by decide
  unfold charText
  split
  · split
    · exact hempty
    · rename_i n _
      cases cs[n.toNat]? with
      | none => exact hempty
      | some c => exact textFits_char c
  · exact hempty

omit h in
/-- Blanks taken off both ends. -/
theorem trimChars_sublist (cs : List Char) : (Text.trimChars cs).Sublist cs := by
  have hfront (cs : List Char) : (Text.trimFront cs).Sublist cs := List.dropWhile_sublist _
  have hback := (hfront (Text.trimFront cs).reverse).reverse
  rw [List.reverse_reverse] at hback
  exact hback.trans (hfront cs)

theorem fitsRun_stringMethod {m : StringMethod} {t : String} (ht : TextFits t)
    (arguments : List Value) (hg : ¬ (Op.stringMethod m t arguments).Unguarded) :
    FitsRun Value.Fits (m.run t arguments) s := by
  cases m
  case toUpperCase | toLowerCase | split => exact absurd (by simp [Op.Unguarded]) hg
  all_goals refine fitsRun_reading ?_
  case «repeat» => exact fitsRun_repeated h t _
  all_goals refine fitsRun_pure h ?_
  case toString => exact ht
  case trim => exact ht.sublist (trimChars_sublist _)
  case indexOf => exact fits_foundAt _
  case charAt => exact textFits_charText _ _
  case slice => exact ht.sublist ((List.drop_sublist _ _).trans (List.take_sublist _ _))
  all_goals trivial

theorem fitsRun_fixedText (x : Float) (places : Number.Whole) :
    FitsRun Value.Fits (fixedText x places) s := by
  unfold fixedText
  split
  · split
    · exact fitsRun_fail _
    · split
      · exact fitsRun_pure h (textFits_of_le (Number.bytes_fixed x (by omega)))
      · exact fitsRun_pure h (textFits_number x)
  · exact fitsRun_fail _

theorem fitsRun_plain {n : PlainNative} (arguments : List Value)
    (hg : ¬ (Op.plain n arguments).Unguarded) : FitsRun Value.Fits (n.run arguments) s := by
  cases n
  case string | escape | unescape | keys | values => exact absurd (by simp [Op.Unguarded]) hg
  all_goals exact fitsRun_reading (fitsRun_pure h trivial)

theorem fitsRun_collect {m : ArrayVisit} {items returned : List Value} (hi : ListFits items)
    (hl : returned.length = items.length) (hr : ∀ v ∈ returned, v.Fits) :
    FitsRun Value.Fits (m.collect items returned) s := by
  cases m with
  | forEach => exact fitsRun_pure h trivial
  | map => exact fitsRun_newArray h ⟨hl ▸ hi.length, hr⟩
  | filter =>
      refine fitsRun_newArray h (hi.sublist ?_)
      refine (List.filter_sublist.map Prod.fst).trans ?_
      rw [List.map_fst_zip (Nat.le_of_eq hl.symm)]

theorem fitsRun_numberMethod (m : NumberMethod) (x : Float) (arguments : List Value) :
    FitsRun Value.Fits (m.run x arguments) s := by
  cases m
  case toString => exact fitsRun_pure h (textFits_number x)
  case toFixed => exact fitsRun_reading (fitsRun_fixedText h x _)

end

/-! ### Operations that keep to the limits -/

theorem Scopes.Fit.put {σ : Scopes} (h : σ.Fit) {v : Variable} (hv : v.value.Fits) (r : Ref)
    (name : String) : (σ.put r name v).Fit := by
  intro q word w hw
  rw [scope_put] at hw
  split at hw
  · rw [Scope.get?_put] at hw
    split at hw
    · cases hw
      exact hv
    · exact h _ word w hw
  · exact h q word w hw

theorem Op.Rescopes.fit {o : Op} {s : Store} {τ : Scopes} (h : o.Rescopes s.scopes τ)
    (ho : o.Fits s) (hs : Scopes.Fit s.scopes) : τ.Fit := by
  cases h with
  | same => exact hs
  | newScope =>
      intro r name v hv
      rw [Scopes.scope_opened] at hv
      exact hs r name v hv
  | define | declare | assign => exact Scopes.Fit.put hs (v := ⟨_, _⟩) ho _ _
  | declareVar => exact Scopes.Fit.put hs (v := ⟨.undefined, true⟩) trivial _ _

/-- What operations leave among arrays and objects. -/
theorem Op.fitsRun {o : Op} {s t : Store} {a : o.Result} (hs : s.Fits) (ho : o.Fits s)
    (hg : ¬ o.Unguarded) (hr : o.run s = .ok a t) : t.HeapFits ∧ o.Gives a t := by
  have h := hs.toHeapFits
  have kept {t : Store} (ha : t.arrays = s.arrays) (ho : t.objects = s.objects) : t.HeapFits := by
    refine ⟨fun a => ?_, fun o => ?_⟩
    · rw [Store.items, ha]
      exact h.items a
    · rw [Store.fields, ho]
      exact h.fields o
  cases o with
  | look => cases hr; exact ⟨h, rfl⟩
  | fail f => cases hr
  | newArray items => exact fitsRun_newArray h ⟨Nat.le_of_not_lt hg, by simpa using ho.1⟩ a t hr
  | newObject fields => exact fitsRun_newObject h ho a t hr
  | newFunction | newScope | define => cases hr; exact ⟨kept rfl rfl, trivial⟩
  | declare env name v m =>
      simp only [Op.run, declare_run] at hr
      split at hr
      · cases hr
      · cases hr; exact ⟨kept rfl rfl, trivial⟩
  | declareVar env name =>
      simp only [Op.run, declareVar_run] at hr
      split at hr <;> cases hr <;> exact ⟨kept rfl rfl, trivial⟩
  | lookUp env name =>
      simp only [Op.run, lookUp_run] at hr
      split at hr
      · rename_i r v hf
        cases hr
        exact ⟨h, hs.bindings r name v (Scopes.get?_of_find? hf)⟩
      · cases hr
  | typeOfName env name =>
      simp only [Op.run, typeOfName_run] at hr
      split at hr <;> cases hr
      · exact ⟨h, textFits_typeName _⟩
      · exact ⟨h, show TextFits _ by decide⟩
  | assign env name v =>
      simp only [Op.run, assignName_run] at hr
      split at hr
      · split at hr <;> cases hr
        exact ⟨kept rfl rfl, trivial⟩
      · cases hr
  | getProperty base key => exact fitsRun_getProperty h base key a t hr
  | setProperty base key v => exact fitsRun_setProperty h ho.2 hg a t hr
  | unary op v => exact fitsRun_applyUnary h op v a t hr
  | binary op v w => exact fitsRun_operate h op v w a t hr
  | loopItems v => exact fitsRun_loopItems h v a t hr
  | arrayMethod m r arguments => exact fitsRun_arrayMethod h r arguments hg a t hr
  | stringMethod m text arguments => exact fitsRun_stringMethod h ho.1 arguments hg a t hr
  | numberMethod m x arguments => exact fitsRun_numberMethod h m x arguments a t hr
  | plain n arguments => exact fitsRun_plain h arguments hg a t hr
  | collect m items returned => exact fitsRun_collect h ho.1 ho.2.1 ho.2.2 a t hr

/-- **What an operation makes of what fits, fits**, where it asks for a limit if it needs one. -/
theorem Op.fits_of_run {o : Op} {s t : Store} {a : o.Result} (hs : s.Fits) (ho : o.Fits s)
    (hg : ¬ o.Unguarded) (hr : o.run s = .ok a t) : t.Fits ∧ o.Gives a t := by
  have effect := Op.effect hr
  obtain ⟨heap, gives⟩ := Op.fitsRun hs ho hg hr
  refine ⟨⟨heap, fun d env hm => ?_, effect.scopes.fit ho hs.bindings⟩, gives⟩
  rcases effect.functions _ hm with hm | rfl
  · exact hs.closures d env hm
  · exact ho d env rfl

/-- So the limits are breached only where none is asked for. -/
theorem Op.unguarded_of_breaches {o : Op} {s : Store} (hs : s.Fits) (ho : o.Fits s)
    (h : o.Breaches s) : o.Unguarded := by
  obtain ⟨a, t, hr, hbreach⟩ := h
  by_contra hg
  exact hbreach (Op.fits_of_run hs ho hg hr)

/-! ### Operations that ask for a limit -/

/-- How large what is built would become, how large it may, and how it fails beyond. -/
structure Growth where
  size : Nat
  limit : Nat
  fault : Fault

/-- The texts that `+` joins, where it does. -/
def summands? (s : Store) (v w : Value) : Option (String × String) :=
  match s.primitive v, s.primitive w with
  | .string a, b => some (a, s.text b)
  | a, .string b => some (s.text a, b)
  | _, _ => none

/-- The number of elements that an array is given, where a whole number is assigned to its length. -/
def givenLength? (x : Float) : Option Nat :=
  match Number.wholePart x with
  | .at n => if 0 ≤ n ∧ Number.isWhole x then some n.toNat else none
  | _ => none

/-- What an operation builds, where it asks for a limit: two texts joined, a text repeated, an array
with an element written or of another length. -/
def Op.growth? (s : Store) : Op → Option Growth
  | .binary .add v w => (summands? s v w).map fun (a, b) =>
    ⟨a.utf8ByteSize + b.utf8ByteSize, maxStringBytes, .stringLength⟩
  | .stringMethod .repeat t arguments =>
    match s.whole (argument arguments 0) with
    | .at n =>
      if n < 0 then none else some ⟨n.toNat * t.utf8ByteSize, maxStringBytes, .stringLength⟩
    | _ => none
  | .setProperty (.array a) key v =>
    match arrayIndex? key with
    | some i => some ⟨max (s.items a).size (i + 1), maxArrayElements, .arrayLength⟩
    | none =>
      if key = "length" then
        (givenLength? (s.number v)).map fun length => ⟨length, maxArrayElements, .arrayLength⟩
      else none
  | _ => none

/-- Whether a computation fails just where the limit is exceeded, over a range. -/
structure Growth.Decides {α : Type} (g : Growth) (m : Run α) (s : Store) : Prop where
  kind : g.fault.kind = .range
  fails : g.limit < g.size → m s = .error (.fault g.fault) s
  succeeds : g.size ≤ g.limit → ∃ a t, m s = .ok a t

section
variable {s : Store} {g : Growth}

theorem operate_add (v w : Value) (s : Store) : operate .add v w s =
    match summands? s v w with
    | some (a, b) => add.join a b s
    | none => .ok (.number (s.number (s.primitive v) + s.number (s.primitive w))) s := by
  rw [show operate .add v w = add v w from rfl, add, run_get_bind, summands?]
  cases s.primitive v <;> cases s.primitive w <;> rfl

theorem decides_add {v w : Value} (h : (Op.binary .add v w).growth? s = some g) :
    g.Decides (operate .add v w) s := by
  obtain ⟨⟨a, b⟩, hab, rfl⟩ := Option.map_eq_some_iff.mp h
  refine ⟨rfl, fun hl => ?_, fun hl => ?_⟩ <;> rw [operate_add, hab] <;> dsimp only [add.join]
  · rw [if_pos hl]
    rfl
  · rw [if_neg (Nat.not_lt.mpr hl)]
    exact ⟨_, _, rfl⟩

theorem decides_repeat {t : String} {arguments : List Value}
    (h : (Op.stringMethod .repeat t arguments).growth? s = some g) :
    g.Decides (StringMethod.run .repeat t arguments) s := by
  have hrun : StringMethod.run .repeat t arguments s =
      repeated t (s.whole (argument arguments 0)) s := rfl
  rw [Op.growth?] at h
  split at h
  · rename_i n hn
    split at h
    · cases h
    · rename_i hneg
      cases h
      refine ⟨rfl, fun hl => ?_, fun hl => ?_⟩ <;> rw [hrun, hn] <;> dsimp only [repeated] <;>
        rw [if_neg hneg]
      · rw [if_pos hl]
        rfl
      · rw [if_neg (Nat.not_lt.mpr hl)]
        exact ⟨_, _, rfl⟩
  · cases h

/-- A length is assigned just where it is whole and within the limit. -/
theorem newLength?_eq {x : Float} {length : Nat} (h : givenLength? x = some length) :
    newLength? x = if length ≤ maxArrayElements then some length else none := by
  rw [givenLength?] at h
  split at h
  · rename_i n hn
    split at h
    · rename_i hwhole
      cases h
      rw [newLength?, hn]
      have hle : n ≤ maxArrayElements ↔ n.toNat ≤ maxArrayElements := by omega
      simp only [hwhole.1, hwhole.2, true_and, and_true, hle]
    · cases h
  · cases h

theorem setProperty_length {a : Ref} {v : Value} {length : Nat} {s : Store}
    (hl : givenLength? (s.number v) = some length) : setProperty (.array a) "length" v s =
      if length ≤ maxArrayElements then changeItems a (resize · length) s
      else .error (.fault .arrayLength) s := by
  have hkey : arrayIndex? "length" = none := by decide +kernel
  simp only [setProperty, hkey, if_true, run_get_bind, newLength?_eq hl]
  split <;> rfl

theorem decides_setProperty (hs : s.HeapFits) {a : Ref} {key : String} {v : Value}
    (h : (Op.setProperty (.array a) key v).growth? s = some g) :
    g.Decides (setProperty (.array a) key v) s := by
  have hsize := hs.size_items a
  simp only [Op.growth?] at h
  cases hi : arrayIndex? key with
  | some i =>
      rw [hi] at h
      cases h
      refine ⟨rfl, fun hl => ?_, fun hl => ?_⟩ <;> dsimp only at hl <;> rw [setProperty_index hi]
      · exact if_pos (by omega)
      · rw [if_neg (by omega)]
        exact ⟨_, _, rfl⟩
  | none =>
      rw [hi] at h
      dsimp only at h
      split at h
      · rename_i hkey
        subst hkey
        obtain ⟨length, hlength, rfl⟩ := Option.map_eq_some_iff.mp h
        refine ⟨rfl, fun hl => ?_, fun hl => ?_⟩ <;> dsimp only at hl <;>
          rw [setProperty_length hlength]
        · exact if_neg (Nat.not_le.mpr hl)
        · rw [if_pos hl]
          exact ⟨_, _, rfl⟩
      · cases h

/-- **Operations that ask for a limit fail just where it is exceeded.** -/
theorem Op.run_growth {o : Op} (hs : s.HeapFits) (h : o.growth? s = some g) : g.Decides o.run s := by
  cases o with
  | binary op v w =>
      cases op
      case add => exact decides_add h
      all_goals cases h
  | stringMethod m t arguments =>
      cases m
      case «repeat» => exact decides_repeat h
      all_goals cases h
  | setProperty base key v =>
      cases base
      case array a => exact decides_setProperty hs h
      all_goals cases h
  | _ => cases h

/-! ### One that does not -/

/-- **An array that is full grows when a value is pushed to it.** -/
theorem Op.breaches_push {a : Ref} (hfull : (s.items a).size = maxArrayElements) (v : Value) :
    (Op.arrayMethod .push a [v]).Breaches s := by
  refine ⟨_, _, rfl, fun ⟨hfits, _⟩ => ?_⟩
  have hlt : a < s.arrays.size := by
    by_contra hge
    rw [Store.items, Array.getD_eq_getD_getElem?,
      Array.getElem?_eq_none (Nat.le_of_not_lt hge)] at hfull
    cases hfull
  have hsize := hfits.size_items a
  rw [Store.items_modify, if_pos ⟨rfl, hlt⟩, Array.size_append, hfull] at hsize
  exact Nat.not_succ_le_self _ hsize

end

end Stencil.Script
