import Stencil.Proofs.Runs.Related
import Stencil.Proofs.Runs.Scopes
import Stencil.Proofs.Runs.Text
import Stencil.Proofs.Names.Mentions

/-!
# Twin — stores of two runs

Two runs of one script can differ in what their references are, and in what a name is bound to that
the script never mentions.  A `Link` says which arrays and objects correspond; functions and scopes
are the same on both sides, since it is the script that makes them.  `K.Same v w` says that two
values are the same up to the link, and `K.Linked s s'` that two stores are.

All that scripts can see of values is the same in linked stores: `Linked.text`, `Linked.number`,
`Linked.looseEqual` and the like.
-/

namespace Stencil.Script

/-- **Links** between the stores of two runs. -/
structure Link where
  /-- The arrays that correspond. -/
  arrays : Ref → Ref → Prop
  /-- The objects that correspond. -/
  objects : Ref → Ref → Prop
  /-- A name that scripts do not mention. -/
  hidden : String
  arrays_iff : ∀ {a b a' b'}, arrays a b → arrays a' b' → (a = a' ↔ b = b')
  objects_iff : ∀ {a b a' b'}, objects a b → objects a' b' → (a = a' ↔ b = b')

namespace Link

variable (K : Link)

/-- Values that are the same up to a link. -/
inductive Same : Value → Value → Prop where
  | undefined : Same .undefined .undefined
  | null : Same .null .null
  | bool (b : Bool) : Same (.bool b) (.bool b)
  | number (x : Float) : Same (.number x) (.number x)
  | string (t : String) : Same (.string t) (.string t)
  | array {a b : Ref} (h : K.arrays a b) : Same (.array a) (.array b)
  | object {a b : Ref} (h : K.objects a b) : Same (.object a) (.object b)
  | function (f : Ref) : Same (.function f) (.function f)

/-- Lists of values that are the same. -/
abbrev SameValues : List Value → List Value → Prop :=
  List.Forall₂ K.Same

/-- Fields with one key and the same value. -/
def SameField (p q : String × Value) : Prop :=
  p.1 = q.1 ∧ K.Same p.2 q.2

/-- Values with keys, both the same. -/
def SameEntry (p q : Value × Value) : Prop :=
  K.Same p.1 q.1 ∧ K.Same p.2 q.2

/-- Variables that hold the same value. -/
def SameVariable (v w : Variable) : Prop :=
  K.Same v.value w.value ∧ v.mutable = w.mutable

/-- Scopes that bind the same, apart from the hidden name. -/
structure SameScopes (σ τ : Scopes) : Prop where
  size : σ.size = τ.size
  get? : ∀ r n, n ≠ K.hidden →
    Option.Rel K.SameVariable ((σ.scope r).get? n) ((τ.scope r).get? n)

/-- Whether a script does not mention the hidden name. -/
def Unmentioned (mentions : List Mention) : Prop :=
  ∀ m ∈ mentions, m.name? ≠ some K.hidden

/-- **Stores that are the same up to a link.** -/
structure Linked (s s' : Store) : Prop where
  items : ∀ {a b}, K.arrays a b → K.SameValues (s.items a).toList (s'.items b).toList
  fields : ∀ {a b}, K.objects a b → List.Forall₂ K.SameField (s.fields a) (s'.fields b)
  arrays_lt : ∀ {a b}, K.arrays a b → (a < s.arrays.size ↔ b < s'.arrays.size)
  objects_lt : ∀ {a b}, K.objects a b → (a < s.objects.size ↔ b < s'.objects.size)
  nextArray : ∀ i, K.arrays (s.arrays.size + i) (s'.arrays.size + i)
  nextObject : ∀ i, K.objects (s.objects.size + i) (s'.objects.size + i)
  functions : s.functions = s'.functions
  closures : ∀ d env, .closure d env ∈ s.functions → K.Unmentioned d.mentions
  scopes : K.SameScopes s.scopes s'.scopes
  depth : s.depth = s'.depth

variable {K}

theorem unmentioned_append {l m : List Mention} :
    K.Unmentioned (l ++ m) ↔ K.Unmentioned l ∧ K.Unmentioned m := by
  simp only [Unmentioned, List.mem_append, or_imp, forall_and]

theorem Unmentioned.of_subset {l m : List Mention} (h : K.Unmentioned m) (hs : ∀ x ∈ l, x ∈ m) :
    K.Unmentioned l :=
  fun x hx => h x (hs x hx)

/-! ### Values -/

namespace Same
variable {v w : Value} (h : K.Same v w)
include h

theorem isNullish : v.isNullish = w.isNullish := by cases h <;> rfl

theorem isFunction : v.isFunction = w.isFunction := by cases h <;> rfl

theorem typeName : v.typeName = w.typeName := by cases h <;> rfl

theorem truthy : v.truthy = w.truthy := by cases h <;> rfl

theorem keepsLeft (op : LogicalOp) : op.keepsLeft v = op.keepsLeft w := by
  cases op <;> simp only [LogicalOp.keepsLeft, h.truthy, h.isNullish]

theorem strictEqual {v' w' : Value} (h' : K.Same v' w') :
    strictEqual v v' = strictEqual w w' := by
  cases h with
  | array ha =>
      cases h' with
      | array hb =>
          rw [Bool.eq_iff_iff]
          simpa only [Script.strictEqual, beq_iff_eq] using K.arrays_iff ha hb
      | _ => rfl
  | object ha =>
      cases h' with
      | object hb =>
          rw [Bool.eq_iff_iff]
          simpa only [Script.strictEqual, beq_iff_eq] using K.objects_iff ha hb
      | _ => rfl
  | _ => cases h' <;> rfl

end Same

theorem same_bool {a b : Bool} (h : a = b) : K.Same (.bool a) (.bool b) :=
  h ▸ .bool a

theorem same_number {x y : Float} (h : x = y) : K.Same (.number x) (.number y) :=
  h ▸ .number x

theorem same_string {t u : String} (h : t = u) : K.Same (.string t) (.string u) :=
  h ▸ .string t

theorem sameValues_strings {α : Type} (f : α → String) (l : List α) :
    K.SameValues (l.map fun x => .string (f x)) (l.map fun x => .string (f x)) := by
  induction l with
  | nil => exact .nil
  | cons x l ih => exact .cons (.string _) ih

theorem SameValues.argument {l l' : List Value} (h : K.SameValues l l') (i : Nat) :
    K.Same (argument l i) (argument l' i) :=
  RelatedValues.argument h .undefined i

theorem SameValues.tail {l l' : List Value} (h : K.SameValues l l') :
    K.SameValues l.tail l'.tail :=
  RelatedValues.tail h

theorem SameValues.headD {l l' : List Value} (h : K.SameValues l l') :
    K.Same (l.headD .undefined) (l'.headD .undefined) :=
  RelatedValues.headD h .undefined

/-! ### Fields -/

theorem get?_sameFields {fields fields' : Fields}
    (h : List.Forall₂ K.SameField fields fields') (key : String) :
    K.Same ((fields.get? key).getD .undefined) ((fields'.get? key).getD .undefined) :=
  RelatedFields.get? h .undefined key

theorem put_sameFields {fields fields' : Fields} (h : List.Forall₂ K.SameField fields fields')
    (key : String) {v w : Value} (hv : K.Same v w) :
    List.Forall₂ K.SameField (fields.put key v) (fields'.put key w) :=
  RelatedFields.put h key hv

theorem keys_sameFields {fields fields' : Fields} (h : List.Forall₂ K.SameField fields fields') :
    fields.keys = fields'.keys :=
  RelatedFields.keys h

/-! ### What scripts see of values -/

namespace Linked
variable {s s' : Store} (l : K.Linked s s') {v w : Value}
include l

theorem callable (f : Ref) : s.callable f = s'.callable f := by
  rw [Store.callable, Store.callable, l.functions]

theorem textWithin? (depth : Nat) (h : K.Same v w) :
    s.textWithin? depth v = s'.textWithin? depth w := by
  induction depth generalizing v w with
  | zero =>
      cases h with
      | function f => exact congrArg (some ·.text) (l.callable f)
      | _ => rfl
  | succ depth ih =>
      cases h with
      | function f => exact congrArg (some ·.text) (l.callable f)
      | array ha =>
          have element : ∀ v w, K.Same v w → s.elementWithin? depth v = s'.elementWithin? depth w :=
            fun v w hv => by rw [Store.elementWithin?, Store.elementWithin?, hv.isNullish, ih hv]
          rw [Store.textWithin?_array, Store.textWithin?_array,
            Store.mapM_eq_of_forall₂ element (l.items ha)]
      | _ => rfl

/-- **Values that are the same have the same text.** -/
theorem text (h : K.Same v w) : s.text v = s'.text w := by
  rw [s.text_eq (Nat.le_max_left _ (s'.arrays.size + 1)),
    s'.text_eq (Nat.le_max_right (s.arrays.size + 1) _), l.textWithin? _ h]

theorem key (h : K.Same v w) : s.key v = s'.key w :=
  l.text h

theorem number (h : K.Same v w) : s.number v = s'.number w := by
  have ht := l.text h
  cases h with
  | array | object | function => exact congrArg textNumber ht
  | _ => rfl

theorem whole (h : K.Same v w) : s.whole v = s'.whole w :=
  congrArg Number.wholePart (l.number h)

theorem primitive (h : K.Same v w) : K.Same (s.primitive v) (s'.primitive w) := by
  have ht := l.text h
  cases h with
  | array | object | function => exact same_string ht
  | undefined => exact .undefined
  | null => exact .null
  | bool b => exact .bool b
  | number x => exact .number x
  | string t => exact .string t

omit l in
theorem describe (h : K.Same v w) : s.describe v = s'.describe w := by
  cases h <;> rfl

theorem elementText (h : K.Same v w) : s.elementText v = s'.elementText w := by
  rw [Store.elementText, Store.elementText, h.isNullish, l.text h]

theorem joined {xs ys : Array Value} (h : K.SameValues xs.toList ys.toList) (separator : String) :
    s.joined xs separator = s'.joined ys separator := by
  have texts : ∀ {xs ys}, K.SameValues xs ys → xs.map s.elementText = ys.map s'.elementText := by
    intro xs ys h
    induction h with
    | nil => rfl
    | cons hv _ ih => rw [List.map_cons, List.map_cons, ih, l.elementText hv]
  rw [Store.joined, Store.joined, texts h]

theorem bound (length default : Nat) (h : K.Same v w) :
    s.bound length default v = s'.bound length default w := by
  have hw := congrArg (placeIn length) (l.whole h)
  cases h with
  | undefined => rfl
  | _ => exact hw

theorem sliceBounds (length : Nat) {arguments arguments' : List Value}
    (h : K.SameValues arguments arguments') :
    sliceBounds s length arguments = sliceBounds s' length arguments' := by
  simp only [Script.sliceBounds, l.bound length _ (h.argument 0), l.bound length _ (h.argument 1)]

theorem spread (h : K.Same v w) : K.SameValues (s.spread v).toList (s'.spread w).toList := by
  cases h with
  | array ha => exact l.items ha
  | undefined => exact .cons .undefined .nil
  | null => exact .cons .null .nil
  | bool b => exact .cons (.bool b) .nil
  | number x => exact .cons (.number x) .nil
  | string t => exact .cons (.string t) .nil
  | object ho => exact .cons (.object ho) .nil
  | function f => exact .cons (.function f) .nil

theorem entries (h : K.Same v w) : List.Forall₂ K.SameEntry (s.entries v) (s'.entries w) := by
  cases h with
  | array ha => exact related_indexed (l.items ha) .number
  | object ho =>
      have hf := l.fields ho
      simp only [Store.entries]
      rw [List.forall₂_map_left_iff, List.forall₂_map_right_iff]
      exact hf.imp fun p q h => ⟨h.2, same_string h.1⟩
  | _ => exact .nil

theorem size_items {a b : Ref} (h : K.arrays a b) : (s.items a).size = (s'.items b).size :=
  related_size (l.items h)

theorem size (h : K.Same v w) : s.size v = s'.size w := by
  cases h with
  | array ha => exact l.size_items ha
  | object ho => exact (l.fields ho).length_eq
  | _ => rfl

theorem loopKeys (h : K.Same v w) : K.SameValues (s.loopKeys v) (s'.loopKeys w) := by
  cases h with
  | array ha =>
      simp only [Store.loopKeys, indexKeys, l.size_items ha]
      exact sameValues_strings _ _
  | object ho =>
      simp only [Store.loopKeys, keys_sameFields (l.fields ho)]
      exact sameValues_strings id _
  | string t => exact sameValues_strings _ _
  | _ => exact .nil

/-! ### Comparisons -/

theorem looseEqualWithin? (rounds : Nat) {v' w' : Value} (h : K.Same v w) (h' : K.Same v' w') :
    looseEqualWithin? s rounds v v' = looseEqualWithin? s' rounds w w' := by
  induction rounds generalizing v w v' w' with
  | zero => rfl
  | succ rounds ih =>
      have hs := congrArg some (h.strictEqual h')
      have number := ih (same_number (l.number h)) h'
      have number' := ih h (same_number (l.number h'))
      have primitive := ih (l.primitive h) h'
      have primitive' := ih h (l.primitive h')
      cases h <;> cases h' <;>
        first
        | rfl
        | exact hs
        | exact number
        | exact number'
        | exact primitive
        | exact primitive'

theorem looseEqual {v' w' : Value} (h : K.Same v w) (h' : K.Same v' w') :
    looseEqual s v v' = looseEqual s' w w' :=
  congrArg (·.getD false) (l.looseEqualWithin? 3 h h')

theorem order {v' w' : Value} (h : K.Same v w) (h' : K.Same v' w') :
    order s v v' = order s' w w' := by
  have p := l.primitive h
  have p' := l.primitive h'
  have number := l.number p
  have number' := l.number p'
  rw [Script.order, Script.order]
  generalize s.primitive v = a at *
  generalize s.primitive v' = a' at *
  generalize s'.primitive w = b at *
  generalize s'.primitive w' = b' at *
  cases p <;> cases p' <;> simp only [number, number']

end Linked

end Link
end Stencil.Script
