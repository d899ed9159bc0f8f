import Stencil.Script.Function

/-!
# Runs — computations on the heap

The arrays and objects of a store are its heap.  `OnHeap m` says that `m` works on these alone: it
does not see the scopes, it leaves them, the functions and the open calls as they are, and it does
not fail over a name.

* `OnHeap.bind`, `OnHeap.reading`: such computations compose, also after a look at the heap.
* `onHeap_operate`, `onHeap_getProperty`, `onHeap_setProperty`: operators and properties.
* `ArrayMethod.onHeap_run`, `StringMethod.onHeap_run`, `NumberMethod.onHeap_run`,
  `PlainNative.onHeap_run`: what the language provides, where it calls no function.
* `onHeap_importDocument`: making the value of a document.
-/

namespace Stencil.Script

/-- A store with other scopes. -/
def Store.withScopes (s : Store) (scopes : Array Scope) : Store :=
  { s with scopes := scopes }

@[simp] theorem Store.scopes_withScopes (s : Store) (scopes : Array Scope) :
    (s.withScopes scopes).scopes = scopes := rfl

@[simp] theorem Store.functions_withScopes (s : Store) (scopes : Array Scope) :
    (s.withScopes scopes).functions = s.functions := rfl

@[simp] theorem Store.depth_withScopes (s : Store) (scopes : Array Scope) :
    (s.withScopes scopes).depth = s.depth := rfl

@[simp] theorem Store.withScopes_self (s : Store) : s.withScopes s.scopes = s := rfl

@[simp] theorem Store.withScopes_withScopes (s : Store) (x y : Array Scope) :
    (s.withScopes x).withScopes y = s.withScopes y := rfl

/-! ### What does not depend on the scopes -/

section
variable (s : Store) (x : Array Scope)

@[simp] theorem Store.items_withScopes (a : Ref) : (s.withScopes x).items a = s.items a := rfl

@[simp] theorem Store.fields_withScopes (o : Ref) : (s.withScopes x).fields o = s.fields o := rfl

@[simp] theorem Store.callable_withScopes (f : Ref) :
    (s.withScopes x).callable f = s.callable f := rfl

theorem Store.textWithin?_withScopes (depth : Nat) (v : Value) :
    (s.withScopes x).textWithin? depth v = s.textWithin? depth v := by
  induction depth generalizing v with
  | zero => cases v <;> simp [Store.textWithin?]
  | succ depth ih => cases v <;> simp [Store.textWithin?, ih]

@[simp] theorem Store.text_withScopes (v : Value) : (s.withScopes x).text v = s.text v :=
  congrArg (·.getD "") (s.textWithin?_withScopes x _ v)

@[simp] theorem Store.number_withScopes (v : Value) : (s.withScopes x).number v = s.number v := by
  cases v <;> simp [Store.number]

@[simp] theorem Store.key_withScopes (v : Value) : (s.withScopes x).key v = s.key v :=
  s.text_withScopes x v

@[simp] theorem Store.whole_withScopes (v : Value) : (s.withScopes x).whole v = s.whole v := by
  simp [Store.whole]

@[simp] theorem Store.primitive_withScopes (v : Value) :
    (s.withScopes x).primitive v = s.primitive v := by
  cases v <;> simp [Store.primitive]

@[simp] theorem Store.describe_withScopes (v : Value) :
    (s.withScopes x).describe v = s.describe v := by
  cases v <;> simp [Store.describe]

@[simp] theorem Store.elementText_withScopes (v : Value) :
    (s.withScopes x).elementText v = s.elementText v := by
  simp [Store.elementText]

@[simp] theorem Store.joined_withScopes (items : Array Value) (separator : String) :
    (s.withScopes x).joined items separator = s.joined items separator := by
  simp only [Store.joined, funext (s.elementText_withScopes x)]

@[simp] theorem Store.bound_withScopes (length default : Nat) (v : Value) :
    (s.withScopes x).bound length default v = s.bound length default v := by
  cases v <;> simp [Store.bound]

@[simp] theorem sliceBounds_withScopes (length : Nat) (arguments : List Value) :
    sliceBounds (s.withScopes x) length arguments = sliceBounds s length arguments := by
  simp [sliceBounds]

@[simp] theorem Store.spread_withScopes (v : Value) :
    (s.withScopes x).spread v = s.spread v := rfl

@[simp] theorem Store.entries_withScopes (v : Value) :
    (s.withScopes x).entries v = s.entries v := rfl

@[simp] theorem Store.size_withScopes (v : Value) : (s.withScopes x).size v = s.size v := rfl

@[simp] theorem Store.loopKeys_withScopes (v : Value) :
    (s.withScopes x).loopKeys v = s.loopKeys v := rfl

theorem looseEqualWithin?_withScopes (rounds : Nat) (v w : Value) :
    looseEqualWithin? (s.withScopes x) rounds v w = looseEqualWithin? s rounds v w := by
  induction rounds generalizing v w with
  | zero => rfl
  | succ rounds ih => simp only [looseEqualWithin?, ih, Store.number_withScopes,
        Store.primitive_withScopes]

@[simp] theorem looseEqual_withScopes (v w : Value) :
    looseEqual (s.withScopes x) v w = looseEqual s v w :=
  congrArg (·.getD false) (looseEqualWithin?_withScopes s x _ v w)

@[simp] theorem order_withScopes (v w : Value) :
    order (s.withScopes x) v w = order s v w := by
  simp [order]

end

/-- What is called as a closure is among the functions. -/
theorem Store.mem_functions {s : Store} {r : Ref} {d : Definition} {env : Env}
    (h : s.callable r = .closure d env) : .closure d env ∈ s.functions := by
  rw [Store.callable, Array.getD_eq_getD_getElem?] at h
  cases e : s.functions[r]? with
  | none => rw [e] at h; cases h
  | some c =>
      rw [e] at h
      obtain rfl : c = .closure d env := h
      exact Array.mem_of_getElem? e

/-! ### Arrays and objects of a store -/

namespace Store

theorem items_push (s : Store) (xs : Array Value) (a : Ref) :
    Store.items { s with arrays := s.arrays.push xs } a =
      if a = s.arrays.size then xs else s.items a := by
  simp only [items, Array.getD_eq_getD_getElem?, Array.getElem?_push]
  split <;> rfl

theorem items_modify (s : Store) (a : Ref) (f : Array Value → Array Value) (c : Ref) :
    Store.items { s with arrays := s.arrays.modify a f } c =
      if a = c ∧ c < s.arrays.size then f (s.items c) else s.items c := by
  simp only [items, Array.getD_eq_getD_getElem?, Array.getElem?_modify]
  by_cases hc : c < s.arrays.size
  · by_cases ha : a = c <;> simp [ha, hc]
  · simp [hc]

theorem fields_push (s : Store) (fields : Fields) (o : Ref) :
    Store.fields { s with objects := s.objects.push fields } o =
      if o = s.objects.size then fields else s.fields o := by
  simp only [Store.fields, Array.getD_eq_getD_getElem?, Array.getElem?_push]
  split <;> rfl

theorem fields_modify (s : Store) (o : Ref) (f : Fields → Fields) (c : Ref) :
    Store.fields { s with objects := s.objects.modify o f } c =
      if o = c ∧ c < s.objects.size then f (s.fields c) else s.fields c := by
  simp only [Store.fields, Array.getD_eq_getD_getElem?, Array.getElem?_modify]
  by_cases hc : c < s.objects.size
  · by_cases ho : o = c <;> simp [ho, hc]
  · simp [hc]

end Store

/-! ### Computations on the heap -/

/-- The end of a run. -/
abbrev Outcome (α : Type) := EStateM.Result Stop Store α

section
variable {α β : Type}

/-- The store that a run leaves. -/
def storeOf : Outcome α → Store
  | .ok _ s => s
  | .error _ s => s

/-- The end of a run with the store changed. -/
def mapStore (f : Store → Store) : Outcome α → Outcome α
  | .ok a s => .ok a (f s)
  | .error e s => .error e (f s)

theorem run_bind (m : Run α) (f : α → Run β) (s : Store) :
    (m >>= f) s = match m s with
      | .ok a t => f a t
      | .error e t => .error e t := by
  simp only [bind, EStateM.bind]
  cases m s <;> rfl

theorem run_get_bind (f : Store → Run β) (s : Store) : (get >>= f) s = f s s := rfl

/-- A slot is written if it is there already or can be within the bound on lengths. -/
theorem setProperty_index {a : Ref} {key : String} {i : Nat} (hi : arrayIndex? key = some i)
    (v : Value) (s : Store) : setProperty (.array a) key v s =
      if (s.items a).size ≤ i ∧ maxArrayElements ≤ i then .error (.fault .arrayLength) s
      else changeItems a (setItem · i v) s := by
  simp only [setProperty, hi, run_get_bind]
  split <;> rfl

/-- A sequence with a result went through a result of its first part. -/
theorem bind_eq_ok {m : Run α} {f : α → Run β} {s u : Store} {b : β} (h : (m >>= f) s = .ok b u) :
    ∃ a t, m s = .ok a t ∧ f a t = .ok b u := by
  rw [run_bind] at h
  split at h
  · rename_i a t ht
    exact ⟨a, t, ht, h⟩
  · cases h

/-- A call with a result went through a result one level deeper. -/
theorem asCall_eq_ok {m : Run α} {s t : Store} {a : α} (h : asCall m s = .ok a t) :
    ∃ u, m { s with depth := s.depth + 1 } = .ok a u ∧ t = { u with depth := u.depth - 1 } := by
  rw [asCall] at h
  split at h
  · rename_i b u hu
    cases h
    exact ⟨u, hu, rfl⟩
  · cases h

theorem asCall_eq_error {m : Run α} {s t : Store} {e : Stop} (h : asCall m s = .error e t) :
    ∃ u, m { s with depth := s.depth + 1 } = .error e u ∧ t = { u with depth := u.depth - 1 } := by
  rw [asCall] at h
  split at h
  · cases h
  · rename_i e' u hu
    cases h
    exact ⟨u, hu, rfl⟩

/-- A function that fails does so in the run that imports its data and calls it. -/
theorem callWith_of_apply {d : Definition} {steps : Nat} {data : Json.Document} {stop : Stop}
    (h : d.apply steps data = .error stop) :
    ∃ t, callWith steps d data Store.initial = .error stop t := by
  rw [Definition.apply] at h
  split at h
  · cases h
  · rename_i stop' t ht
    cases h
    exact ⟨t, ht⟩

/-- Whether a fault is about a name: what it is bound to, or that it is bound or not. -/
def Fault.aboutName : Fault → Bool
  | .notDefined _ => true
  | .invalidTarget => true
  | .constantAssignment _ => true
  | .alreadyDeclared _ => true
  | _ => false

theorem Fault.kind_ne_reference {f : Fault} (h : f.aboutName = false) : f.kind ≠ .reference := by
  cases f with
  | notDefined _ | invalidTarget => cases h
  | _ => nofun

/-- **Computations on the heap.** -/
structure OnHeap (m : Run α) : Prop where
  blind : ∀ s scopes, m (s.withScopes scopes) = mapStore (·.withScopes scopes) (m s)
  functions : ∀ s, (storeOf (m s)).functions = s.functions
  depth : ∀ s, (storeOf (m s)).depth = s.depth
  fault : ∀ s f t, m s = .error (.fault f) t → f.aboutName = false

namespace OnHeap

theorem scopes {m : Run α} (h : OnHeap m) (s : Store) :
    (storeOf (m s)).scopes = s.scopes := by
  have hb := h.blind s s.scopes
  rw [Store.withScopes_self] at hb
  rw [hb]
  cases m s <;> rfl

theorem pure (a : α) : OnHeap (Pure.pure a : Run α) :=
  ⟨fun _ _ => rfl, fun _ => rfl, fun _ => rfl, fun _ _ _ h => by cases h⟩

theorem fail {f : Fault} (h : f.aboutName = false) : OnHeap (Script.fail f : Run α) :=
  ⟨fun _ _ => rfl, fun _ => rfl, fun _ => rfl, fun _ _ _ e => by cases e; exact h⟩

theorem bind {m : Run α} {f : α → Run β} (hm : OnHeap m) (hf : ∀ a, OnHeap (f a)) :
    OnHeap (m >>= f) where
  blind s x := by
    rw [run_bind, run_bind, hm.blind s x]
    cases m s with
    | ok a t => exact (hf a).blind t x
    | error e t => rfl
  functions s := by
    have h := hm.functions s
    rw [run_bind]
    cases hs : m s with
    | ok a t => rw [hs] at h; exact ((hf a).functions t).trans h
    | error e t => rw [hs] at h; exact h
  depth s := by
    have h := hm.depth s
    rw [run_bind]
    cases hs : m s with
    | ok a t => rw [hs] at h; exact ((hf a).depth t).trans h
    | error e t => rw [hs] at h; exact h
  fault s f t e := by
    rw [run_bind] at e
    cases hs : m s with
    | ok a u => rw [hs] at e; exact (hf a).fault u f t e
    | error e' u => rw [hs] at e; cases e; exact hm.fault s f t hs

/-- A look at the store, if only the heap decides what follows. -/
theorem reading {k : Store → Run β} (hk : ∀ s, OnHeap (k s))
    (h : ∀ s scopes, k (s.withScopes scopes) = k s) : OnHeap (get >>= k) where
  blind s x := by
    rw [run_get_bind, run_get_bind, h s x]
    exact (hk s).blind s x
  functions s := (hk s).functions s
  depth s := (hk s).depth s
  fault s := (hk s).fault s

end OnHeap

end

/-! ### Arrays and objects -/

theorem onHeap_newArray (items : Array Value) : OnHeap (newArray items) :=
  ⟨fun _ _ => rfl, fun _ => rfl, fun _ => rfl, fun _ _ _ h => by cases h⟩

theorem onHeap_newObject (fields : Fields) : OnHeap (newObject fields) :=
  ⟨fun _ _ => rfl, fun _ => rfl, fun _ => rfl, fun _ _ _ h => by cases h⟩

theorem onHeap_changeItems (a : Ref) (f : Array Value → Array Value) :
    OnHeap (changeItems a f) :=
  ⟨fun _ _ => rfl, fun _ => rfl, fun _ => rfl, fun _ _ _ h => by cases h⟩

theorem onHeap_changeFields (o : Ref) (f : Fields → Fields) : OnHeap (changeFields o f) :=
  ⟨fun _ _ => rfl, fun _ => rfl, fun _ => rfl, fun _ _ _ h => by cases h⟩

/-! ### Operators and properties -/

theorem onHeap_join (a b : String) : OnHeap (add.join a b) := by
  unfold add.join
  split
  · exact .fail rfl
  · exact .pure _

theorem onHeap_add (v w : Value) : OnHeap (add v w) := by
  refine .reading (fun s => ?_) (fun _ _ => by simp)
  split
  · exact onHeap_join _ _
  · exact onHeap_join _ _
  · exact .pure _

theorem onHeap_operate (op : BinaryOp) (v w : Value) : OnHeap (operate op v w) := by
  cases op
  case add => exact onHeap_add v w
  all_goals exact .reading (fun _ => .pure _) (fun _ _ => by simp)

theorem onHeap_applyUnary (op : UnaryOp) (v : Value) : OnHeap (applyUnary op v) := by
  cases op <;> exact .reading (fun _ => .pure _) (fun _ _ => by simp)

theorem onHeap_getProperty (base : Value) (key : String) : OnHeap (getProperty base key) := by
  cases base
  case undefined => exact .reading (fun _ => .fail rfl) (fun _ _ => by simp)
  case null => exact .reading (fun _ => .fail rfl) (fun _ _ => by simp)
  all_goals exact .reading (fun _ => .pure _) (fun _ _ => by simp)

theorem onHeap_setProperty (base : Value) (key : String) (value : Value) :
    OnHeap (setProperty base key value) := by
  cases base
  case undefined => exact .fail rfl
  case null => exact .fail rfl
  case object o => exact onHeap_changeFields o _
  case array a =>
    unfold setProperty
    dsimp only
    split
    · refine .reading (fun s => ?_) (fun _ _ => rfl)
      split
      · exact .fail rfl
      · exact onHeap_changeItems _ _
    · split
      · refine .reading (fun s => ?_) (fun _ _ => by simp)
        split
        · exact onHeap_changeItems _ _
        · exact .fail rfl
      · exact .pure _
  all_goals exact .pure _

theorem onHeap_loopItems (v : Value) : OnHeap (loopItems v) := by
  cases v
  case array => exact .reading (fun _ => .pure _) (fun _ _ => by simp)
  case string => exact .reading (fun _ => .pure _) (fun _ _ => by simp)
  all_goals exact .reading (fun _ => .fail rfl) (fun _ _ => by simp)

/-! ### What the language provides -/

theorem ArrayMethod.onHeap_run (m : ArrayMethod) (a : Ref) (arguments : List Value) :
    OnHeap (m.run a arguments) := by
  cases m
  case push =>
    exact (onHeap_changeItems _ _).bind fun _ => .reading (fun _ => .pure _) (fun _ _ => by simp)
  case pop =>
    refine .reading (fun s => ?_) (fun _ _ => by simp)
    exact (onHeap_changeItems _ _).bind fun _ => .pure _
  case slice => exact .reading (fun _ => onHeap_newArray _) (fun _ _ => by simp)
  case concat => exact .reading (fun _ => onHeap_newArray _) (fun _ _ => by simp)
  all_goals exact .reading (fun _ => .pure _) (fun _ _ => by simp)

theorem onHeap_repeated (t : String) (count : Number.Whole) : OnHeap (repeated t count) := by
  unfold repeated
  split
  · split
    · exact .fail rfl
    · split
      · exact .fail rfl
      · exact .pure _
  · exact .fail rfl

theorem StringMethod.onHeap_run (m : StringMethod) (t : String) (arguments : List Value) :
    OnHeap (m.run t arguments) := by
  cases m
  case split =>
    refine .reading (fun s => ?_) (fun _ _ => by simp)
    dsimp only
    split <;> exact onHeap_newArray _
  case «repeat» => exact .reading (fun _ => onHeap_repeated _ _) (fun _ _ => by simp)
  all_goals exact .reading (fun _ => .pure _) (fun _ _ => by simp)

theorem onHeap_fixedText (x : Float) (places : Number.Whole) : OnHeap (fixedText x places) := by
  unfold fixedText
  split
  · split
    · exact .fail rfl
    · split <;> exact .pure _
  · exact .fail rfl

theorem NumberMethod.onHeap_run (m : NumberMethod) (x : Float) (arguments : List Value) :
    OnHeap (m.run x arguments) := by
  cases m
  case toString => exact .pure _
  case toFixed => exact .reading (fun _ => onHeap_fixedText _ _) (fun _ _ => by simp)

theorem PlainNative.onHeap_run (n : PlainNative) (arguments : List Value) :
    OnHeap (n.run arguments) := by
  cases n
  case keys => exact .reading (fun _ => onHeap_newArray _) (fun _ _ => by simp)
  case values => exact .reading (fun _ => onHeap_newArray _) (fun _ _ => by simp)
  all_goals exact .reading (fun _ => .pure _) (fun _ _ => by simp)

theorem ArrayVisit.onHeap_collect (m : ArrayVisit) (items returned : List Value) :
    OnHeap (m.collect items returned) := by
  cases m
  case forEach => exact .pure _
  all_goals exact onHeap_newArray _

/-! ### Data -/

mutual

theorem onHeap_importDocument : ∀ document : Json.Document, OnHeap (importDocument document)
  | .null => .pure _
  | .bool _ => .pure _
  | .number _ => .pure _
  | .string _ => .pure _
  | .array items => (onHeap_importItems items).bind fun _ => onHeap_newArray _
  | .object members => (onHeap_importMembers members).bind fun _ => onHeap_newObject _

theorem onHeap_importItems : ∀ items : List Json.Document, OnHeap (importItems items)
  | [] => .pure _
  | item :: rest =>
      (onHeap_importDocument item).bind fun _ => (onHeap_importItems rest).bind fun _ => .pure _

theorem onHeap_importMembers :
    ∀ members : List (String × Json.Document), OnHeap (importMembers members)
  | [] => .pure _
  | (_, item) :: rest =>
      (onHeap_importDocument item).bind fun _ => (onHeap_importMembers rest).bind fun _ => .pure _

end

end Stencil.Script
