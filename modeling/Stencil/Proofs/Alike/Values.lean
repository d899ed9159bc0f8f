import Stencil.Proofs.Runs.Related
import Stencil.Proofs.Runs.Scopes
import Stencil.Proofs.Runs.Text

/-!
# Alike — stores of runs that make functions at different times

Two runs of one script can make the functions of its definitions at different times, and more or fewer
of them.  What a function does when it is called is the same on both sides all the same, and all that
scripts see of it is what it does, unless they compare it with another function.

* `Value.Alike`: values that are the same, or functions that do the same.
* `Store.Alike`: stores with the same arrays, objects and scopes, up to that.
* `Store.Alike.text`, `Store.Alike.number`, `Store.Alike.order` and the like: all that scripts see of
  values is the same in stores that are alike; `Store.Alike.looseEqual` asks that not both sides are
  functions.
-/

namespace Stencil.Script

/-- The functions of a store. -/
abbrev Functions := Array Callable

/-- **Extension**: functions are added, and what those before do stays. -/
def Functions.Extends (F G : Functions) : Prop :=
  ∀ (f : Ref) (c : Callable), F[f]? = some c → G[f]? = some c

namespace Functions.Extends
variable {F G H : Functions}

theorem refl (F : Functions) : Extends F F :=
  fun _ _ h => h

theorem trans (h : Extends F G) (h' : Extends G H) : Extends F H :=
  fun f c hf => h' f c (h f c hf)

theorem push (F : Functions) (c : Callable) : Extends F (F.push c) := by
  intro f d hf
  rw [Array.getElem?_push, if_neg fun e => ?_, hf]
  rw [e, Array.getElem?_size] at hf
  cases hf

end Functions.Extends

/-- **Values that are alike**: the same, or functions that do the same. -/
inductive Value.Alike (F F' : Functions) : Value → Value → Prop where
  | same {v : Value} (h : v.isFunction = false) : Alike F F' v v
  | function {f g : Ref} {c : Callable} (hf : F[f]? = some c) (hg : F'[g]? = some c) :
    Alike F F' (.function f) (.function g)

/-- Lists of values that are alike. -/
abbrev ValuesAlike (F F' : Functions) : List Value → List Value → Prop :=
  RelatedValues (Value.Alike F F')

/-- The same keys in the same order, with values that are alike. -/
abbrev FieldsAlike (F F' : Functions) : Fields → Fields → Prop :=
  RelatedFields (Value.Alike F F')

/-- Values with keys, both alike. -/
abbrev EntriesAlike (F F' : Functions) : List (Value × Value) → List (Value × Value) → Prop :=
  List.Forall₂ (RelatedEntry (Value.Alike F F'))

/-- Variables that hold values that are alike. -/
def Variable.Alike (F F' : Functions) (v w : Variable) : Prop :=
  Value.Alike F F' v.value w.value ∧ v.mutable = w.mutable

/-- Scopes that bind the same names to values that are alike, in any order. -/
structure ScopesAlike (F F' : Functions) (σ τ : Scopes) : Prop where
  size : σ.size = τ.size
  get? : ∀ r n, Option.Rel (Variable.Alike F F') ((σ.scope r).get? n) ((τ.scope r).get? n)

/-- **Stores that are alike.** -/
structure Store.Alike (s s' : Store) : Prop where
  arrays : s.arrays.size = s'.arrays.size
  items : ∀ a, ValuesAlike s.functions s'.functions (s.items a).toList (s'.items a).toList
  objects : s.objects.size = s'.objects.size
  fields : ∀ o, FieldsAlike s.functions s'.functions (s.fields o) (s'.fields o)
  scopes : ScopesAlike s.functions s'.functions s.scopes s'.scopes
  depth : s.depth = s'.depth

/-! ### Values -/

theorem getElem?_of_callable {s : Store} {f : Ref} {c : Callable} (h : s.functions[f]? = some c) :
    s.callable f = c := by
  rw [Store.callable, Array.getD_eq_getD_getElem?, h]
  rfl

theorem Store.isFunction_primitive (s : Store) (v : Value) : (s.primitive v).isFunction = false := by
  cases v <;> rfl

namespace Value.Alike
variable {F F' G G' : Functions} {v w : Value}

theorem undefined : Value.Alike F F' .undefined .undefined := .same rfl

theorem number (x : Float) : Value.Alike F F' (.number x) (.number x) := .same rfl

theorem string (t : String) : Value.Alike F F' (.string t) (.string t) := .same rfl

theorem of_string {t u : String} (h : t = u) : Value.Alike F F' (.string t) (.string u) :=
  h ▸ .same rfl

theorem of_number {x y : Float} (h : x = y) : Value.Alike F F' (.number x) (.number y) :=
  h ▸ .same rfl

theorem of_bool {a b : Bool} (h : a = b) : Value.Alike F F' (.bool a) (.bool b) :=
  h ▸ .same rfl

theorem foundAt (i : Option Nat) : Value.Alike F F' (foundAt i) (foundAt i) := by
  cases i <;> exact .same rfl

variable (h : Value.Alike F F' v w)
include h

theorem mono (hF : F.Extends G) (hF' : F'.Extends G') : Value.Alike G G' v w := by
  cases h with
  | same h => exact .same h
  | function hf hg => exact .function (hF _ _ hf) (hF' _ _ hg)

theorem isNullish : v.isNullish = w.isNullish := by cases h <;> rfl

theorem isFunction : v.isFunction = w.isFunction := by cases h <;> rfl

theorem typeName : v.typeName = w.typeName := by cases h <;> rfl

theorem truthy : v.truthy = w.truthy := by cases h <;> rfl

theorem keepsLeft (op : LogicalOp) : op.keepsLeft v = op.keepsLeft w := by
  cases op <;> simp only [LogicalOp.keepsLeft, h.truthy, h.isNullish]

theorem describe (s s' : Store) : s.describe v = s'.describe w := by
  cases h with
  | function => rfl
  | same hv => cases v <;> rfl

theorem eq_of_not_function (hv : v.isFunction = false) : v = w := by
  cases h with
  | same => rfl
  | function => cases hv

/-- Where not both sides are functions, they are compared alike. -/
theorem strictEqual {v' w' : Value} (h' : Value.Alike F F' v' w')
    (hf : (v.isFunction && v'.isFunction) = false) :
    strictEqual v v' = strictEqual w w' := by
  cases h with
  | same hv =>
      cases h' with
      | same => rfl
      | function => cases v <;> first | rfl | cases hv
  | function =>
      cases h' with
      | @same v' hv' => cases v' <;> first | rfl | cases hv'
      | function => cases hf

end Value.Alike

theorem valuesAlike_strings {F F' : Functions} {α : Type} (f : α → String) (l : List α) :
    ValuesAlike F F' (l.map fun x => .string (f x)) (l.map fun x => .string (f x)) :=
  List.forall₂_same.mpr fun v hv => by
    obtain ⟨x, -, rfl⟩ := List.mem_map.mp hv
    exact .string (f x)

/-! ### What scripts see of values -/

namespace Store.Alike
variable {s s' : Store} (l : s.Alike s') {v w : Value}
include l

/-- Functions are added on both sides, and nothing else is changed. -/
theorem mono_functions {G G' : Functions} (hG : Functions.Extends s.functions G)
    (hG' : Functions.Extends s'.functions G') :
    Store.Alike { s with functions := G } { s' with functions := G' } :=
  { l with
    items := fun a => (l.items a).imp fun _ _ h => h.mono hG hG'
    fields := fun o => (l.fields o).imp fun _ _ h => ⟨h.1, h.2.mono hG hG'⟩
    scopes := ⟨l.scopes.size, fun r n => by
      have h := l.scopes.get? r n
      generalize (Scopes.scope s.scopes r).get? n = v at h
      generalize (Scopes.scope s'.scopes r).get? n = w at h
      cases h with
      | none => exact .none
      | some h => exact .some ⟨h.1.mono hG hG', h.2⟩⟩ }

theorem textWithin? (depth : Nat) (h : Value.Alike s.functions s'.functions v w) :
    s.textWithin? depth v = s'.textWithin? depth w := by
  have function {f g : Ref} {c : Callable} (hf : s.functions[f]? = some c)
      (hg : s'.functions[g]? = some c) : (s.callable f).text = (s'.callable g).text := by
    rw [getElem?_of_callable hf, getElem?_of_callable hg]
  induction depth generalizing v w with
  | zero =>
      cases h with
      | function hf hg => exact congrArg some (function hf hg)
      | same hv => cases v <;> first | rfl | cases hv
  | succ depth ih =>
      cases h with
      | function hf hg => exact congrArg some (function hf hg)
      | same hv =>
          cases v with
          | array a =>
              have element : ∀ v w, Value.Alike s.functions s'.functions v w →
                  s.elementWithin? depth v = s'.elementWithin? depth w := fun v w hv => by
                rw [Store.elementWithin?, Store.elementWithin?, hv.isNullish, ih hv]
              rw [Store.textWithin?_array, Store.textWithin?_array,
                Store.mapM_eq_of_forall₂ element (l.items a)]
          | function => cases hv
          | _ => rfl

/-- **Values that are alike have the same text.** -/
theorem text (h : Value.Alike s.functions s'.functions v w) : s.text v = s'.text w := by
  rw [Store.text, Store.text, l.arrays, l.textWithin? _ h]

theorem key (h : Value.Alike s.functions s'.functions v w) : s.key v = s'.key w :=
  l.text h

theorem number (h : Value.Alike s.functions s'.functions v w) : s.number v = s'.number w := by
  have ht := l.text h
  cases h with
  | function => exact congrArg textNumber ht
  | same hv =>
      cases v with
      | array | object | function => exact congrArg textNumber ht
      | _ => rfl

theorem whole (h : Value.Alike s.functions s'.functions v w) : s.whole v = s'.whole w :=
  congrArg Number.wholePart (l.number h)

theorem primitive (h : Value.Alike s.functions s'.functions v w) :
    Value.Alike s.functions s'.functions (s.primitive v) (s'.primitive w) := by
  have ht := l.text h
  cases h with
  | function => exact .of_string ht
  | same hv => cases v <;> first | exact .of_string ht | exact .same hv

/-- A primitive value is the same on both sides. -/
theorem primitive_eq (h : Value.Alike s.functions s'.functions v w) :
    s.primitive v = s'.primitive w :=
  (l.primitive h).eq_of_not_function (s.isFunction_primitive v)

theorem elementText (h : Value.Alike s.functions s'.functions v w) :
    s.elementText v = s'.elementText w := by
  rw [Store.elementText, Store.elementText, h.isNullish, l.text h]

theorem joined (a : Ref) (separator : String) :
    s.joined (s.items a) separator = s'.joined (s'.items a) separator := by
  have texts : ∀ {xs ys}, ValuesAlike s.functions s'.functions xs ys →
      xs.map s.elementText = ys.map s'.elementText := by
    intro xs ys h
    induction h with
    | nil => rfl
    | cons hv _ ih => rw [List.map_cons, List.map_cons, ih, l.elementText hv]
  rw [Store.joined, Store.joined, texts (l.items a)]

theorem bound (length default : Nat) (h : Value.Alike s.functions s'.functions v w) :
    s.bound length default v = s'.bound length default w := by
  have hw := congrArg (placeIn length) (l.whole h)
  cases h with
  | function => exact hw
  | same hv =>
      cases v with
      | undefined => rfl
      | _ => exact hw

theorem sliceBounds (length : Nat) {arguments arguments' : List Value}
    (h : ValuesAlike s.functions s'.functions arguments arguments') :
    sliceBounds s length arguments = sliceBounds s' length arguments' := by
  simp only [Script.sliceBounds, l.bound length _ (h.argument .undefined 0),
    l.bound length _ (h.argument .undefined 1)]

theorem spread (h : Value.Alike s.functions s'.functions v w) :
    ValuesAlike s.functions s'.functions (s.spread v).toList (s'.spread w).toList := by
  have one : ValuesAlike s.functions s'.functions [v] [w] := .cons h .nil
  cases h with
  | function => exact one
  | same hv =>
      cases v with
      | array a => exact l.items a
      | _ => exact one

theorem entries (h : Value.Alike s.functions s'.functions v w) :
    EntriesAlike s.functions s'.functions (s.entries v) (s'.entries w) := by
  cases h with
  | function => exact .nil
  | same hv =>
      cases v with
      | array a => exact related_indexed (l.items a) .number
      | object o =>
          refine List.rel_map (fun p q hp => ?_) (l.fields o)
          exact ⟨hp.2, .of_string hp.1⟩
      | _ => exact .nil

theorem size_items (a : Ref) : (s.items a).size = (s'.items a).size :=
  related_size (l.items a)

theorem size (h : Value.Alike s.functions s'.functions v w) : s.size v = s'.size w := by
  cases h with
  | function => rfl
  | same hv =>
      cases v with
      | array a => exact l.size_items a
      | object o => exact (l.fields o).length_eq
      | _ => rfl

theorem loopKeys (h : Value.Alike s.functions s'.functions v w) :
    ValuesAlike s.functions s'.functions (s.loopKeys v) (s'.loopKeys w) := by
  cases h with
  | function => exact .nil
  | same hv =>
      cases v with
      | array a =>
          simp only [Store.loopKeys, indexKeys, l.size_items a]
          exact valuesAlike_strings _ _
      | object o =>
          simp only [Store.loopKeys, (l.fields o).keys]
          exact valuesAlike_strings id _
      | string t => exact valuesAlike_strings _ _
      | _ => exact .nil

/-! ### Comparisons -/

theorem looseEqualWithin? (rounds : Nat) {v' w' : Value}
    (h : Value.Alike s.functions s'.functions v w) (h' : Value.Alike s.functions s'.functions v' w')
    (hf : (v.isFunction && v'.isFunction) = false) :
    looseEqualWithin? s rounds v v' = looseEqualWithin? s' rounds w w' := by
  induction rounds generalizing v w v' w' with
  | zero => rfl
  | succ rounds ih =>
      have strict := congrArg some (h.strictEqual h' hf)
      have number := ih (.of_number (l.number h)) h' rfl
      have number' := ih h (.of_number (l.number h')) (Bool.and_false _)
      have primitive := ih (l.primitive h) h' (by rw [s.isFunction_primitive, Bool.false_and])
      have primitive' := ih h (l.primitive h') (by rw [s.isFunction_primitive, Bool.and_false])
      -- whatever two values are, they are compared as they are, as numbers or as primitive values
      cases h with
      | same hv =>
          cases h' with
          | same hv' =>
              cases v <;> cases v' <;> first
                | exact strict
                | rfl
                | exact number
                | exact number'
                | exact primitive
                | exact primitive'
          | function =>
              cases v <;> first
                | rfl
                | exact strict
                | exact number
                | exact primitive'
      | function =>
          cases h' with
          | @same v' hv' =>
              cases v' <;> first
                | rfl
                | exact strict
                | exact number'
                | exact primitive
          | function => cases hf

theorem looseEqual {v' w' : Value} (h : Value.Alike s.functions s'.functions v w)
    (h' : Value.Alike s.functions s'.functions v' w')
    (hf : (v.isFunction && v'.isFunction) = false) : looseEqual s v v' = looseEqual s' w w' :=
  congrArg (·.getD false) (l.looseEqualWithin? 3 h h' hf)

theorem order {v' w' : Value} (h : Value.Alike s.functions s'.functions v w)
    (h' : Value.Alike s.functions s'.functions v' w') : order s v v' = order s' w w' := by
  have number := l.number (l.primitive h)
  have number' := l.number (l.primitive h')
  rw [Script.order, Script.order]
  rw [← l.primitive_eq h, ← l.primitive_eq h'] at *
  generalize s.primitive v = a at *
  generalize s.primitive v' = b at *
  cases a <;> cases b <;> simp only [number, number']

end Store.Alike

end Stencil.Script
