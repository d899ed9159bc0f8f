import Stencil.Proofs.Runs.Heap
import Stencil.Proofs.Runs.Text

/-!
# Runs — data

Data holds no functions of a script, and what is computed from it with operators and properties
alone holds none either.  So such a computation is the same whatever functions, scopes and open
calls there are: `OnData m Q` says this of `m`, and that its result has `Q`.

* `Value.Given`, `Store.Given`: values and stores with no functions in them but those that the
  language provides.
* `OnData.bind`, `OnData.reading`: such computations compose.
* `onData_operate`, `onData_getProperty`, `onData_loopItems`, `onData_importDocument`: what they
  are made of.
-/

namespace Stencil.Script

/-- A store with the heap of another. -/
def Store.withHeap (s u : Store) : Store :=
  { s with arrays := u.arrays, objects := u.objects }

@[simp] theorem Store.withHeap_self (s : Store) : s.withHeap s = s := rfl

@[simp] theorem Store.withHeap_withHeap (s u v : Store) :
    s.withHeap (u.withHeap v) = s.withHeap v := rfl

/-- Values that are no functions of a script. -/
def Value.Given (v : Value) : Prop :=
  ∀ f, v = .function f → f < nativeFunctions.length

/-- **Stores of data.**  No function of a script is in the heap, the first object is the helper
object, and the first functions are those that the language provides. -/
structure Store.Given (s : Store) : Prop where
  items : ∀ a, ∀ v ∈ s.items a, v.Given
  fields : ∀ o, ∀ p ∈ s.fields o, p.2.Given
  helper : s.objects[0]? = some helperFields
  natives : ∀ f, f < nativeFunctions.length → s.callable f = Store.initial.callable f

theorem Value.given_of_not_function {v : Value} (h : v.isFunction = false) : v.Given := by
  intro f hv
  rw [hv] at h
  cases h

theorem Store.Given.withHeap {s t : Store} (h : s.Given) (h' : t.Given) : (t.withHeap s).Given :=
  ⟨h.items, h.fields, h.helper, h'.natives⟩

/-! ### Conversions -/

section
variable {s t : Store} (h : s.Given) (h' : t.Given) {v w : Value} (hv : v.Given) (hw : w.Given)
include h h' hv

theorem Store.textWithin?_withHeap (depth : Nat) :
    (t.withHeap s).textWithin? depth v = s.textWithin? depth v := by
  have function : ∀ {w : Value}, w.Given → ∀ f, w = .function f →
      (t.callable f).text = (s.callable f).text := fun given f e => by
    rw [h.natives f (given f e), h'.natives f (given f e)]
  induction depth generalizing v with
  | zero =>
      cases v with
      | function f => exact congrArg some (function hv f rfl)
      | _ => simp only [Store.textWithin?]
  | succ depth ih =>
      cases v with
      | function f => exact congrArg some (function hv f rfl)
      | array a =>
          rw [Store.textWithin?_array, Store.textWithin?_array]
          refine congrArg (Option.map _)
            (Store.mapM_eq_of_forall₂ (fun _ _ e => e) (List.forall₂_same.mpr fun v hm => ?_))
          have given : v.Given := h.items a v (Array.mem_toList_iff.mp hm)
          rw [Store.elementWithin?, Store.elementWithin?, ih given]
      | _ => simp only [Store.textWithin?]

theorem Store.text_withHeap : (t.withHeap s).text v = s.text v :=
  congrArg (·.getD "") (Store.textWithin?_withHeap h h' hv _)

theorem Store.number_withHeap : (t.withHeap s).number v = s.number v := by
  have text := Store.text_withHeap h h' hv
  cases v with
  | array a => exact congrArg textNumber text
  | object o => exact congrArg textNumber text
  | function f => exact congrArg textNumber text
  | _ => rfl

theorem Store.primitive_withHeap : (t.withHeap s).primitive v = s.primitive v := by
  have text := Store.text_withHeap h h' hv
  cases v with
  | array a => exact congrArg Value.string text
  | object o => exact congrArg Value.string text
  | function f => exact congrArg Value.string text
  | _ => rfl

omit h h' hv in
theorem Store.describe_withHeap : (t.withHeap s).describe v = s.describe v := by
  cases v <;> rfl

omit h h' in
theorem Store.given_primitive (s : Store) : (s.primitive v).Given := by
  cases v with
  | array a => exact Value.given_of_not_function rfl
  | object o => exact Value.given_of_not_function rfl
  | function f => exact Value.given_of_not_function rfl
  | _ => exact hv

include hw

theorem looseEqual_withHeap : looseEqual (t.withHeap s) v w = looseEqual s v w := by
  suffices ∀ rounds, ∀ v w : Value, v.Given → w.Given →
      looseEqualWithin? (t.withHeap s) rounds v w = looseEqualWithin? s rounds v w from
    congrArg (·.getD false) (this 3 v w hv hw)
  intro rounds
  induction rounds with
  | zero => exact fun _ _ _ _ => rfl
  | succ rounds ih =>
      intro v w hv hw
      have number : ∀ x : Float, (Value.number x).Given :=
        fun x => Value.given_of_not_function rfl
      have hv' := Store.given_primitive hv s
      have hw' := Store.given_primitive hw s
      simp only [looseEqualWithin?, Store.primitive_withHeap h h' hv,
        Store.primitive_withHeap h h' hw, Store.number_withHeap h h' hv,
        Store.number_withHeap h h' hw, ih _ _ (number _) hw,
        ih _ _ hv (number _), ih _ _ hv' hw, ih _ _ hv hw']

theorem order_withHeap : order (t.withHeap s) v w = order s v w := by
  simp only [order, Store.primitive_withHeap h h' hv, Store.primitive_withHeap h h' hw]
  have hv' := Store.given_primitive hv s
  have hw' := Store.given_primitive hw s
  split <;> simp_all only [Store.number_withHeap h h']

end

/-! ### Computations on data -/

section
variable {α β : Type}

/-- **Computations on data.** -/
structure OnData (m : Run α) (Q : α → Prop) : Prop where
  blind : ∀ s t : Store, s.Given → t.Given → m (t.withHeap s) = mapStore t.withHeap (m s)
  given : ∀ s : Store, s.Given → (storeOf (m s)).Given
  result : ∀ (s : Store) a u, s.Given → m s = .ok a u → Q a

namespace OnData

/-- Only the heap changes. -/
theorem keeps {m : Run α} {Q : α → Prop} (h : OnData m Q) {s : Store} (g : s.Given) :
    s.withHeap (storeOf (m s)) = storeOf (m s) := by
  have hs := congrArg storeOf (h.blind s s g g)
  rw [Store.withHeap_self] at hs
  refine Eq.trans ?_ hs.symm
  cases m s <;> rfl

theorem scopes {m : Run α} {Q : α → Prop} (h : OnData m Q) {s t : Store} (g : s.Given) {a : α}
    (e : m s = .ok a t) : t.scopes = s.scopes := by
  have hkeeps := h.keeps g
  rw [e] at hkeeps
  rw [← show s.withHeap t = t from hkeeps]
  rfl

theorem pure {Q : α → Prop} {a : α} (h : Q a) : OnData (Pure.pure a : Run α) Q :=
  ⟨fun _ _ _ _ => rfl, fun _ g => g, fun _ _ _ _ e => by cases e; exact h⟩

theorem fail {Q : α → Prop} (f : Fault) : OnData (Script.fail f : Run α) Q :=
  ⟨fun _ _ _ _ => rfl, fun _ g => g, fun _ _ _ _ e => by cases e⟩

theorem bind {m : Run α} {f : α → Run β} {P : α → Prop} {Q : β → Prop} (hm : OnData m P)
    (hf : ∀ a, P a → OnData (f a) Q) : OnData (m >>= f) Q where
  blind s t g g' := by
    have hb := hm.blind s t g g'
    have hg := hm.given s g
    have hr := hm.result s
    rw [run_bind, run_bind, hb]
    cases e : m s with
    | ok a u =>
        rw [e] at hg
        exact (hf a (hr a u g e)).blind u t hg g'
    | error e u => rfl
  given s g := by
    have hg := hm.given s g
    have hr := hm.result s
    rw [run_bind]
    cases e : m s with
    | ok a u =>
        rw [e] at hg
        exact (hf a (hr a u g e)).given u hg
    | error e' u =>
        rw [e] at hg
        exact hg
  result s b u g e := by
    have hg := hm.given s g
    rw [run_bind] at e
    cases e' : m s with
    | ok a t =>
        rw [e'] at hg e
        exact (hf a (hm.result s a t g e')).result t b u hg e
    | error e'' t =>
        rw [e'] at e
        cases e

/-- A look at the store, if only the heap decides what follows. -/
theorem reading {k : Store → Run β} {Q : β → Prop} (hk : ∀ s : Store, s.Given → OnData (k s) Q)
    (h : ∀ s t : Store, s.Given → t.Given → k (t.withHeap s) = k s) : OnData (get >>= k) Q where
  blind s t g g' := by
    rw [run_get_bind, run_get_bind, h s t g g']
    exact (hk s g).blind s t g g'
  given s g := (hk s g).given s g
  result s a u g e := (hk s g).result s a u g e

end OnData

end

/-! ### Arrays and objects -/

theorem Value.given_string (t : String) : (Value.string t).Given :=
  Value.given_of_not_function rfl

theorem Value.given_undefined : Value.undefined.Given :=
  Value.given_of_not_function rfl

theorem onData_newArray {items : Array Value} (h : ∀ v ∈ items, v.Given) :
    OnData (newArray items) Value.Given where
  blind _ _ _ _ := rfl
  given s g := by
    refine ⟨fun a v hm => ?_, g.fields, g.helper, g.natives⟩
    have hitems : Store.items (storeOf (newArray items s)) a =
        if a = s.arrays.size then items else s.items a := by
      show (s.arrays.push items).getD a #[] = _
      rw [Array.getD_eq_getD_getElem?, Array.getElem?_push, Store.items,
        Array.getD_eq_getD_getElem?]
      split <;> rfl
    rw [hitems] at hm
    split at hm
    · exact h v hm
    · exact g.items a v hm
  result _ _ _ _ e := by
    cases e
    exact Value.given_of_not_function rfl

theorem onData_newObject {fields : Fields} (h : ∀ p ∈ fields, p.2.Given) :
    OnData (newObject fields) Value.Given where
  blind _ _ _ _ := rfl
  given s g := by
    refine ⟨g.items, fun o p hm => ?_, ?_, g.natives⟩
    · have hfields : Store.fields (storeOf (newObject fields s)) o =
          if o = s.objects.size then fields else s.fields o := by
        show (s.objects.push fields).getD o [] = _
        rw [Array.getD_eq_getD_getElem?, Array.getElem?_push, Store.fields,
          Array.getD_eq_getD_getElem?]
        split <;> rfl
      rw [hfields] at hm
      split at hm
      · exact h p hm
      · exact g.fields o p hm
    · have hsize : 0 ≠ s.objects.size := fun e => by
        have := g.helper
        rw [Array.getElem?_eq_none (by omega)] at this
        cases this
      show (s.objects.push fields)[0]? = _
      rw [Array.getElem?_push, if_neg hsize]
      exact g.helper
  result _ _ _ _ e := by
    cases e
    exact Value.given_of_not_function rfl

/-! ### Operators and properties -/

theorem onData_join (a b : String) : OnData (add.join a b) Value.Given := by
  unfold add.join
  split
  · exact .fail _
  · exact .pure (Value.given_string _)

section
variable {v w : Value} (hv : v.Given)
include hv

theorem onData_add (hw : w.Given) : OnData (add v w) Value.Given := by
  have number : ∀ x, OnData (Pure.pure (Value.number x) : Run Value) Value.Given :=
    fun x => .pure (Value.given_of_not_function rfl)
  refine .reading (fun s g => ?_) fun s t g g' => ?_
  · split
    · exact onData_join _ _
    · exact onData_join _ _
    · exact number _
  · have hv' := Store.given_primitive hv s
    have hw' := Store.given_primitive hw s
    simp only [Store.primitive_withHeap g g' hv, Store.primitive_withHeap g g' hw]
    split
    · rename_i hb
      rw [Store.text_withHeap g g' hw']
    · rw [Store.text_withHeap g g' hv']
    · rw [Store.number_withHeap g g' hv', Store.number_withHeap g g' hw']

theorem onData_operate (op : BinaryOp) (hw : w.Given) : OnData (operate op v w) Value.Given := by
  have truth : ∀ b, OnData (Pure.pure (Value.bool b) : Run Value) Value.Given :=
    fun b => .pure (Value.given_of_not_function rfl)
  have number : ∀ x, OnData (Pure.pure (Value.number x) : Run Value) Value.Given :=
    fun x => .pure (Value.given_of_not_function rfl)
  cases op with
  | add => exact onData_add hv hw
  | sub | mul | div | rem =>
      refine .reading (fun s _ => number _) fun s t g g' => ?_
      simp only [Store.number_withHeap g g' hv, Store.number_withHeap g g' hw]
  | equal | notEqual =>
      refine .reading (fun s _ => truth _) fun s t g g' => ?_
      simp only [looseEqual_withHeap g g' hv hw]
  | same | notSame => exact .reading (fun s _ => truth _) fun _ _ _ _ => rfl
  | less | lessEqual | greater | greaterEqual =>
      refine .reading (fun s _ => truth _) fun s t g g' => ?_
      simp only [order_withHeap g g' hv hw]

theorem onData_applyUnary (op : UnaryOp) : OnData (applyUnary op v) Value.Given := by
  have number : ∀ x, OnData (Pure.pure (Value.number x) : Run Value) Value.Given :=
    fun x => .pure (Value.given_of_not_function rfl)
  cases op with
  | not => exact .reading (fun _ _ => .pure (Value.given_of_not_function rfl)) fun _ _ _ _ => rfl
  | typeof => exact .reading (fun _ _ => .pure (Value.given_string _)) fun _ _ _ _ => rfl
  | negate | plus =>
      refine .reading (fun s _ => number _) fun s t g g' => ?_
      simp only [Store.number_withHeap g g' hv]

omit hv in
theorem given_itemAt {items : Array Value} (h : ∀ v ∈ items, v.Given) (key : String) :
    (itemAt items key).Given := by
  rw [itemAt]
  split
  · exact Value.given_of_not_function rfl
  · split
    · rename_i i _
      rw [Array.getD_eq_getD_getElem?]
      cases hi : items[i]? with
      | none => exact Value.given_undefined
      | some v => exact h v (Array.mem_of_getElem? hi)
    · exact Value.given_undefined

omit hv in
theorem given_characterAt (t key : String) : (characterAt t key).Given := by
  rw [characterAt]
  split
  · exact Value.given_of_not_function rfl
  · split
    · exact Value.given_string _
    · exact Value.given_undefined

omit hv in
theorem Fields.mem_of_get? {fields : Fields} {key : String} {v : Value}
    (h : fields.get? key = some v) : (key, v) ∈ fields := by
  induction fields with
  | nil => cases h
  | cons head rest ih =>
      obtain ⟨k, w⟩ := head
      rw [get?, List.lookup_cons] at h
      split at h
      · rename_i hk
        cases h
        rw [beq_iff_eq.mp hk]
        exact List.mem_cons_self
      · exact List.mem_cons_of_mem _ (ih h)

omit hv in
theorem onData_getProperty (base : Value) (key : String) :
    OnData (getProperty base key) Value.Given := by
  have undefined : OnData (Pure.pure Value.undefined : Run Value) Value.Given :=
    .pure Value.given_undefined
  cases base with
  | undefined | null => exact .reading (fun _ _ => .fail _) fun _ _ _ _ => rfl
  | object o =>
      refine .reading (fun s g => .pure ?_) fun _ _ _ _ => rfl
      cases hf : (s.fields o).get? key with
      | none => exact Value.given_undefined
      | some v => exact g.fields o _ (Fields.mem_of_get? hf)
  | array a => exact .reading (fun s g => .pure (given_itemAt (g.items a) key)) fun _ _ _ _ => rfl
  | string t => exact .reading (fun _ _ => .pure (given_characterAt t key)) fun _ _ _ _ => rfl
  | bool _ | number _ | function _ => exact .reading (fun _ _ => undefined) fun _ _ _ _ => rfl

omit hv in
theorem onData_loopItems (hv : v.Given) :
    OnData (loopItems v) fun items => ∀ item ∈ items, item.Given := by
  cases v with
  | array a =>
      refine .reading (fun s g => .pure fun item hm => ?_) fun _ _ _ _ => rfl
      exact g.items a item (Array.mem_toList_iff.mp hm)
  | string t =>
      refine .reading (fun s g => .pure fun item hm => ?_) fun _ _ _ _ => rfl
      obtain ⟨c, -, rfl⟩ := List.mem_map.mp hm
      exact Value.given_string _
  | _ =>
      refine .reading (fun s _ => .fail _) fun s t g g' => ?_
      simp only [Store.describe_withHeap]

end

/-! ### Data -/

theorem Fields.given_put {fields : Fields} (h : ∀ p ∈ fields, p.2.Given) {key : String} {v : Value}
    (hv : v.Given) : ∀ p ∈ fields.put key v, p.2.Given := by
  induction fields with
  | nil =>
      intro p hp
      rw [put, List.mem_singleton] at hp
      rw [hp]
      exact hv
  | cons head rest ih =>
      obtain ⟨k, w⟩ := head
      intro p hp
      rw [put] at hp
      split at hp
      · rcases List.mem_cons.mp hp with rfl | hp
        · exact hv
        · exact h p (List.mem_cons_of_mem _ hp)
      · rcases List.mem_cons.mp hp with rfl | hp
        · exact h _ List.mem_cons_self
        · exact ih (fun q hq => h q (List.mem_cons_of_mem _ hq)) p hp

theorem given_foldl_put {members : List (String × Value)} (h : ∀ p ∈ members, p.2.Given)
    {fields : Fields} (hf : ∀ p ∈ fields, p.2.Given) :
    ∀ p ∈ members.foldl (fun all (key, v) => all.put key v) fields, p.2.Given := by
  induction members generalizing fields with
  | nil => exact hf
  | cons head rest ih =>
      exact ih (fun p hp => h p (List.mem_cons_of_mem _ hp))
        (Fields.given_put hf (h head List.mem_cons_self))

mutual

theorem onData_importDocument :
    ∀ document : Json.Document, OnData (importDocument document) Value.Given
  | .null => .pure (Value.given_of_not_function rfl)
  | .bool _ => .pure (Value.given_of_not_function rfl)
  | .number _ => .pure (Value.given_of_not_function rfl)
  | .string _ => .pure (Value.given_string _)
  | .array items =>
      (onData_importItems items).bind fun values h => onData_newArray fun v hm =>
        h v (List.mem_toArray.mp hm)
  | .object members =>
      (onData_importMembers members).bind fun fields h => onData_newObject
        (given_foldl_put h fun p hp => by cases hp)

theorem onData_importItems : ∀ items : List Json.Document,
    OnData (importItems items) fun values => ∀ v ∈ values, v.Given
  | [] => .pure fun v hv => by cases hv
  | item :: rest =>
      (onData_importDocument item).bind fun v hv => (onData_importItems rest).bind fun vs hvs =>
        .pure fun w hw => by
          rcases List.mem_cons.mp hw with rfl | hw
          · exact hv
          · exact hvs w hw

theorem onData_importMembers : ∀ members : List (String × Json.Document),
    OnData (importMembers members) fun fields => ∀ p ∈ fields, p.2.Given
  | [] => .pure fun v hv => by cases hv
  | (key, item) :: rest =>
      (onData_importDocument item).bind fun v hv => (onData_importMembers rest).bind fun vs hvs =>
        .pure fun p hp => by
          rcases List.mem_cons.mp hp with rfl | hp
          · exact hv
          · exact hvs p hp

end

/-! ### The first store -/

theorem given_initial : Store.initial.Given where
  items a v hm := by
    have : Store.initial.items a = #[] := by simp [Store.items, Store.initial]
    rw [this] at hm
    exact absurd hm (Array.not_mem_empty v)
  fields o p hm := by
    cases o with
    | zero =>
        have all : ∀ p ∈ helperFields, p.2.Given := by
          simp only [helperFields, List.forall_mem_cons]
          refine ⟨?_, ?_, ?_, ?_, ?_, ?_, ?_, ?_, fun _ hp => by cases hp⟩ <;>
            (intro f hf; cases hf; decide)
        exact all p hm
    | succ o =>
        have : Store.initial.fields (o + 1) = [] := by simp [Store.fields, Store.initial]
        rw [this] at hm
        cases hm
  helper := rfl
  natives _ _ := rfl

end Stencil.Script
