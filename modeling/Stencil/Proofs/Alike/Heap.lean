import Stencil.Proofs.Alike.Values

/-!
# Alike — operations on the heap

`RunsAlike Q m m' s s'` says that the runs `m` from `s` and `m'` from `s'` end alike: both with results
that `Q` relates, in stores that are alike, or both with the same fault.  Where the first was not given
enough steps, nothing is said.

* `RunsAlike.bind`, `RunsAlike.reading`: how runs compose.
* `alike_operate`, `alike_getProperty`, `alike_setProperty`: operators and properties.
* `alike_arrayMethod`, `alike_stringMethod`, `alike_numberMethod`, `alike_plainNative`: what the
  language provides, where it calls no function.
-/

namespace Stencil.Script

/-- **Later stores** of two runs: they are alike, and functions were only added. -/
structure Later (s s' t t' : Store) : Prop where
  alike : t.Alike t'
  left : Functions.Extends s.functions t.functions
  right : Functions.Extends s'.functions t'.functions

/-- What two results are to one another in the stores that they come with. -/
abbrev Likeness (α β : Type) := α → β → Store → Store → Prop

namespace Likeness

/-- Values that are alike. -/
abbrev value : Likeness Value Value :=
  fun v w s s' => Value.Alike s.functions s'.functions v w

/-- Lists of values that are alike. -/
abbrev values : Likeness (List Value) (List Value) :=
  fun l l' s s' => ValuesAlike s.functions s'.functions l l'

/-- Fields that are alike. -/
abbrev fields : Likeness Fields Fields :=
  fun l l' s s' => FieldsAlike s.functions s'.functions l l'

/-- Results that say nothing. -/
abbrev unit : Likeness Unit Unit :=
  fun _ _ _ _ => True

/-- Results that are the same. -/
abbrev same {α : Type} : Likeness α α :=
  fun a b _ _ => a = b

/-- The stores themselves. -/
abbrev stores : Likeness Store Store :=
  fun a b s s' => a = s ∧ b = s'

end Likeness

namespace Later
variable {s s' t t' u u' : Store}

theorem refl (l : s.Alike s') : Later s s' s s' :=
  ⟨l, .refl _, .refl _⟩

theorem trans (h : Later s s' t t') (h' : Later t t' u u') : Later s s' u u' :=
  ⟨h'.alike, h.left.trans h'.left, h.right.trans h'.right⟩

variable (h : Later s s' t t')
include h

theorem value {v w : Value} (hv : Likeness.value v w s s') : Likeness.value v w t t' :=
  hv.mono h.left h.right

theorem values {l l' : List Value} (hl : Likeness.values l l' s s') : Likeness.values l l' t t' :=
  hl.imp fun _ _ => h.value

theorem fields {l l' : Fields} (hl : Likeness.fields l l' s s') : Likeness.fields l l' t t' :=
  hl.imp fun _ _ hp => ⟨hp.1, h.value hp.2⟩

theorem entries {l l' : List (Value × Value)} (hl : EntriesAlike s.functions s'.functions l l') :
    EntriesAlike t.functions t'.functions l l' :=
  hl.imp fun _ _ hp => ⟨h.value hp.1, h.value hp.2⟩

end Later

/-! ### Two runs -/

section
variable {α β γ δ : Type}

/-- **The ends of two runs** that are alike, as far as the first was given enough steps. -/
inductive EndsAlike (Q : Likeness α β) (s s' : Store) : Outcome α → Outcome β → Prop where
  | ok {a : α} {b : β} {t t' : Store} (later : Later s s' t t') (h : Q a b t t') :
    EndsAlike Q s s' (.ok a t) (.ok b t')
  | fault (f : Fault) (t t' : Store) :
    EndsAlike Q s s' (.error (.fault f) t) (.error (.fault f) t')
  | exhausted (t : Store) (r : Outcome β) : EndsAlike Q s s' (.error .exhausted t) r

/-- **Two runs that end alike.** -/
def RunsAlike (Q : Likeness α β) (m : Run α) (m' : Run β) (s s' : Store) : Prop :=
  EndsAlike Q s s' (m s) (m' s')

variable {P : Likeness α β} {Q : Likeness γ δ} {s s' : Store} {m : Run α} {m' : Run β}

theorem RunsAlike.bind {k : α → Run γ} {k' : β → Run δ} (h : RunsAlike P m m' s s')
    (hk : ∀ a b t t', m s = .ok a t → Later s s' t t' → P a b t t' →
      RunsAlike Q (k a) (k' b) t t') :
    RunsAlike Q (m >>= k) (m' >>= k') s s' := by
  unfold RunsAlike at h ⊢
  rw [run_bind, run_bind]
  generalize hm : m s = r at h
  generalize m' s' = r' at h
  cases h with
  | @ok a b t t' later hab =>
      have hrest := hk a b t t' hm later hab
      unfold RunsAlike at hrest
      show EndsAlike Q s s' (k a t) (k' b t')
      generalize k a t = r at hrest
      generalize k' b t' = r' at hrest
      cases hrest with
      | ok later' hcd => exact .ok (later.trans later') hcd
      | fault f u u' => exact .fault f u u'
      | exhausted u r' => exact .exhausted u r'
  | fault f t t' => exact .fault f t t'
  | exhausted t r' => exact .exhausted t _

theorem alike_pure (l : s.Alike s') {a : α} {b : β} (h : P a b s s') :
    RunsAlike P (pure a) (pure b) s s' :=
  .ok (.refl l) h

theorem alike_fail {f g : Fault} (h : f = g) : RunsAlike P (fail f) (fail g) s s' :=
  h ▸ .fault _ _ _

theorem RunsAlike.reading {k : Store → Run γ} {k' : Store → Run δ}
    (h : RunsAlike Q (k s) (k' s') s s') : RunsAlike Q (get >>= k) (get >>= k') s s' :=
  h

end

section
variable {s s' : Store} (l : s.Alike s')
include l

theorem alike_string {t u : String} (h : t = u) :
    RunsAlike .value (pure (.string t)) (pure (.string u)) s s' :=
  alike_pure l (.of_string h)

theorem alike_number {x y : Float} (h : x = y) :
    RunsAlike .value (pure (.number x)) (pure (.number y)) s s' :=
  alike_pure l (.of_number h)

theorem alike_bool {a b : Bool} (h : a = b) :
    RunsAlike .value (pure (.bool a)) (pure (.bool b)) s s' :=
  alike_pure l (.of_bool h)

/-! ### Arrays and objects -/

theorem alike_newArray {xs ys : Array Value} (h : Likeness.values xs.toList ys.toList s s') :
    RunsAlike .value (newArray xs) (newArray ys) s s' := by
  have alike : Store.Alike { s with arrays := s.arrays.push xs }
      { s' with arrays := s'.arrays.push ys } :=
    { l with
      arrays := by rw [Array.size_push, Array.size_push, l.arrays]
      items := fun a => by
        rw [Store.items_push, Store.items_push, l.arrays]
        split
        · exact h
        · exact l.items a }
  refine .ok ⟨alike, .refl _, .refl _⟩ ?_
  rw [l.arrays]
  exact .same rfl

theorem alike_newObject {fields fields' : Fields} (h : Likeness.fields fields fields' s s') :
    RunsAlike .value (newObject fields) (newObject fields') s s' := by
  have alike : Store.Alike { s with objects := s.objects.push fields }
      { s' with objects := s'.objects.push fields' } :=
    { l with
      objects := by rw [Array.size_push, Array.size_push, l.objects]
      fields := fun o => by
        rw [Store.fields_push, Store.fields_push, l.objects]
        split
        · exact h
        · exact l.fields o }
  refine .ok ⟨alike, .refl _, .refl _⟩ ?_
  rw [l.objects]
  exact .same rfl

theorem alike_changeItems (a : Ref) {f g : Array Value → Array Value}
    (h : Likeness.values (f (s.items a)).toList (g (s'.items a)).toList s s') :
    RunsAlike .unit (changeItems a f) (changeItems a g) s s' := by
  have alike : Store.Alike { s with arrays := s.arrays.modify a f }
      { s' with arrays := s'.arrays.modify a g } :=
    { l with
      arrays := by rw [Array.size_modify, Array.size_modify, l.arrays]
      items := fun c => by
        rw [Store.items_modify, Store.items_modify, l.arrays]
        split
        · rename_i hc
          exact hc.1 ▸ h
        · exact l.items c }
  exact .ok ⟨alike, .refl _, .refl _⟩ trivial

theorem alike_changeFields (o : Ref) {f g : Fields → Fields}
    (h : Likeness.fields (f (s.fields o)) (g (s'.fields o)) s s') :
    RunsAlike .unit (changeFields o f) (changeFields o g) s s' := by
  have alike : Store.Alike { s with objects := s.objects.modify o f }
      { s' with objects := s'.objects.modify o g } :=
    { l with
      objects := by rw [Array.size_modify, Array.size_modify, l.objects]
      fields := fun c => by
        rw [Store.fields_modify, Store.fields_modify, l.objects]
        split
        · rename_i hc
          exact hc.1 ▸ h
        · exact l.fields c }
  exact .ok ⟨alike, .refl _, .refl _⟩ trivial

/-- Both sides make a function that does the same. -/
theorem alike_newFunction (c : Callable) :
    RunsAlike .value (newFunction c) (newFunction c) s s' := by
  have left := Functions.Extends.push s.functions c
  have right := Functions.Extends.push s'.functions c
  have later : Later s s' { s with functions := s.functions.push c }
      { s' with functions := s'.functions.push c } :=
    ⟨l.mono_functions left right, left, right⟩
  exact .ok later (.function (Array.getElem?_push_size ..) (Array.getElem?_push_size ..))

/-! ### Operators -/

theorem alike_join (a b : String) :
    RunsAlike .value (add.join a b) (add.join a b) s s' := by
  unfold add.join
  split
  · exact alike_fail rfl
  · exact alike_string l rfl

theorem alike_add {v v' w w' : Value} (h : Likeness.value v w s s') (h' : Likeness.value v' w' s s') :
    RunsAlike .value (add v v') (add w w') s s' := by
  refine .reading ?_
  have text := l.text (l.primitive h)
  have text' := l.text (l.primitive h')
  have number := l.number (l.primitive h)
  have number' := l.number (l.primitive h')
  rw [← l.primitive_eq h, ← l.primitive_eq h'] at *
  generalize s.primitive v = a at *
  generalize s.primitive v' = b at *
  -- A text on either side makes it a join.
  cases a with
  | string _ =>
      simp only [text']
      exact alike_join l _ _
  | _ =>
      cases b with
      | string _ =>
          simp only [text]
          exact alike_join l _ _
      | _ => exact alike_number l (congrArg₂ (· + ·) number number')

/-- Whether an operator compares its operands by what they refer to. -/
def BinaryOp.compares : BinaryOp → Bool
  | .equal | .notEqual | .same | .notSame => true
  | _ => false

theorem alike_operate (op : BinaryOp) {v v' w w' : Value} (h : Likeness.value v w s s')
    (h' : Likeness.value v' w' s s')
    (hf : (op.compares && (v.isFunction && v'.isFunction)) = false) :
    RunsAlike .value (operate op v v') (operate op w w') s s' := by
  cases op with
  | add => exact alike_add l h h'
  | sub => exact .reading (alike_number l (congrArg₂ (· - ·) (l.number h) (l.number h')))
  | mul => exact .reading (alike_number l (congrArg₂ (· * ·) (l.number h) (l.number h')))
  | div => exact .reading (alike_number l (congrArg₂ (· / ·) (l.number h) (l.number h')))
  | rem => exact .reading (alike_number l (congrArg₂ _ (l.number h) (l.number h')))
  | equal => exact .reading (alike_bool l (l.looseEqual h h' hf))
  | notEqual => exact .reading (alike_bool l (congrArg _ (l.looseEqual h h' hf)))
  | same => exact .reading (alike_bool l (h.strictEqual h' hf))
  | notSame => exact .reading (alike_bool l (congrArg _ (h.strictEqual h' hf)))
  | less => exact .reading (alike_bool l (congrArg (· == some .lt) (l.order h h')))
  | lessEqual =>
      exact .reading (alike_bool l (congrArg (fun o => o == some .lt || o == some .eq) (l.order h h')))
  | greater => exact .reading (alike_bool l (congrArg (· == some .gt) (l.order h h')))
  | greaterEqual =>
      exact .reading (alike_bool l (congrArg (fun o => o == some .gt || o == some .eq) (l.order h h')))

theorem alike_applyUnary (op : UnaryOp) {v w : Value} (h : Likeness.value v w s s') :
    RunsAlike .value (applyUnary op v) (applyUnary op w) s s' := by
  cases op with
  | not => exact .reading (alike_bool l (congrArg _ h.truthy))
  | negate => exact .reading (alike_number l (congrArg _ (l.number h)))
  | plus => exact .reading (alike_number l (l.number h))
  | typeof => exact .reading (alike_string l h.typeName)

/-! ### Properties -/

theorem alike_getProperty {v w : Value} (h : Likeness.value v w s s') (key : String) :
    RunsAlike .value (getProperty v key) (getProperty w key) s s' := by
  refine .reading ?_
  cases h with
  | function => exact alike_pure l .undefined
  | same hv =>
      cases v with
      | undefined => exact alike_fail rfl
      | null => exact alike_fail rfl
      | object o => exact alike_pure l ((l.fields o).get? .undefined key)
      | array a => exact alike_pure l (related_itemAt (l.items a) .undefined .number key)
      | string t =>
          refine alike_pure l ?_
          rw [characterAt]
          split
          · exact .number _
          · split
            · exact .string _
            · exact .undefined
      | function => cases hv
      | _ => exact alike_pure l .undefined

theorem alike_setProperty {v w : Value} (h : Likeness.value v w s s') (key : String) {x y : Value}
    (hx : Likeness.value x y s s') :
    RunsAlike .unit (setProperty v key x) (setProperty w key y) s s' := by
  cases h with
  | function => exact alike_pure l trivial
  | same hv =>
      cases v with
      | undefined => exact alike_fail rfl
      | null => exact alike_fail rfl
      | object o => exact alike_changeFields l o ((l.fields o).put key hx)
      | array a =>
          have hnumber := l.number hx
          simp only [setProperty]
          split
          · refine .reading ?_
            rw [l.size_items a]
            split
            · exact alike_fail rfl
            · exact alike_changeItems l a (related_setItem (l.items a) .undefined _ hx)
          · split
            · refine .reading ?_
              rw [hnumber]
              split
              · exact alike_changeItems l a (related_resize (l.items a) .undefined _)
              · exact alike_fail rfl
            · exact alike_pure l trivial
      | function => cases hv
      | _ => exact alike_pure l trivial

theorem alike_loopItems {v w : Value} (h : Likeness.value v w s s') :
    RunsAlike .values (loopItems v) (loopItems w) s s' := by
  refine .reading ?_
  have hd := h.describe s s'
  cases h with
  | function => exact alike_fail (congrArg _ hd)
  | same hv =>
      cases v with
      | array a => exact alike_pure l (l.items a)
      | string t => exact alike_pure l (valuesAlike_strings Char.toString _)
      | _ => exact alike_fail (congrArg _ hd)

/-! ### Methods -/

/-- Whether a function would be looked for among elements of which some are functions. -/
def seeksFunction (items : Array Value) (needle : Value) : Bool :=
  needle.isFunction && items.any Value.isFunction

end

/-- Where not both the elements and what is looked for are functions, they are compared alike. -/
theorem alike_compared {F F' : Functions} {xs ys : Array Value}
    (h : ValuesAlike F F' xs.toList ys.toList) {v w : Value} (hv : Value.Alike F F' v w)
    (hf : seeksFunction xs v = false) :
    xs.toList.map (strictEqual · v) = ys.toList.map (strictEqual · w) := by
  rw [seeksFunction, ← Array.any_toList] at hf
  generalize xs.toList = l at *
  generalize ys.toList = l' at *
  induction h with
  | nil => rfl
  | @cons x y l l' hx _ ih =>
      rw [List.any_cons, Bool.and_or_distrib_left, Bool.or_eq_false_iff] at hf
      rw [List.map_cons, List.map_cons, ih hf.2, hx.strictEqual hv (Bool.and_comm .. ▸ hf.1)]

section
variable {s s' : Store} (l : s.Alike s')
include l

/-- Whether a method looks for a function among elements of which some are functions. -/
def ArrayMethod.seeksFunction (m : ArrayMethod) (items : Array Value) (arguments : List Value) : Bool :=
  match m with
  | .indexOf | .includes => Script.seeksFunction items (argument arguments 0)
  | _ => false

theorem alike_arrayMethod (m : ArrayMethod) (a : Ref) {arguments arguments' : List Value}
    (h : Likeness.values arguments arguments' s s')
    (hf : m.seeksFunction (s.items a) arguments = false) :
    RunsAlike .value (m.run a arguments) (m.run a arguments') s s' := by
  have first := h.argument .undefined 0
  cases m with
  | push =>
      refine (alike_changeItems l a ?_).bind fun _ _ t t' _ later _ =>
        .reading (alike_number later.alike (congrArg _ (later.alike.size_items a)))
      simp only [Array.toList_append]
      exact List.rel_append (l.items a) h
  | pop =>
      refine .reading ((alike_changeItems l a ?_).bind fun _ _ t t' _ later _ =>
        alike_pure later.alike (later.value ?_))
      · simp only [Array.toList_pop]
        exact RelatedValues.dropLast (l.items a)
      · exact related_last (l.items a) .undefined
  | join =>
      refine .reading (alike_string l ?_)
      rw [l.joined]
      have text := l.text first
      generalize argument arguments 0 = v at *
      generalize argument arguments' 0 = w at *
      cases first with
      | function => exact congrArg _ text
      | same hv =>
          cases v with
          | undefined => rfl
          | _ => exact congrArg _ text
  | indexOf =>
      refine .reading (alike_pure l ?_)
      have compared := congrArg (List.findIdx? id) (alike_compared (l.items a) first hf)
      rw [List.findIdx?_map, List.findIdx?_map] at compared
      rw [← List.findIdx?_toArray, ← List.findIdx?_toArray] at compared
      exact compared ▸ .foundAt _
  | includes =>
      refine .reading (alike_bool l ?_)
      have compared := congrArg (List.any · id) (alike_compared (l.items a) first hf)
      rw [List.any_map, List.any_map] at compared
      rw [← Array.any_toList, ← Array.any_toList]
      exact compared
  | slice =>
      refine .reading (alike_newArray l ?_)
      rw [l.size_items a, l.bound _ _ first, l.bound _ _ (h.argument .undefined 1)]
      simp only [Array.toList_extract, List.extract_eq_take_drop]
      exact List.forall₂_take _ (List.forall₂_drop _ (l.items a))
  | concat => exact .reading (alike_newArray l (related_concat (l.items a) l.spread h))

theorem alike_repeated (t : String) (count : Number.Whole) :
    RunsAlike .value (repeated t count) (repeated t count) s s' := by
  unfold repeated
  split
  · split
    · exact alike_fail rfl
    · split
      · exact alike_fail rfl
      · exact alike_string l rfl
  · exact alike_fail rfl

theorem alike_stringMethod (m : StringMethod) (t : String) {arguments arguments' : List Value}
    (h : Likeness.values arguments arguments' s s') :
    RunsAlike .value (m.run t arguments) (m.run t arguments') s s' := by
  have first := h.argument .undefined 0
  have text := l.text first
  refine .reading ?_
  cases m with
  | split =>
      have pieces : RunsAlike .value
          (newArray ((Text.split (s.text (argument arguments 0)).toList t.toList).map
            fun piece => Value.string (String.ofList piece)).toArray)
          (newArray ((Text.split (s'.text (argument arguments' 0)).toList t.toList).map
            fun piece => Value.string (String.ofList piece)).toArray) s s' := by
        rw [text]
        exact alike_newArray l (valuesAlike_strings _ _)
      dsimp only
      generalize argument arguments 0 = v at *
      generalize argument arguments' 0 = w at *
      cases first with
      | function => exact pieces
      | same hv =>
          cases v with
          | undefined => exact alike_newArray l (.cons (.string t) .nil)
          | _ => exact pieces
  | «repeat» =>
      dsimp only
      rw [l.whole first]
      exact alike_repeated l t _
  | slice =>
      dsimp only
      rw [l.sliceBounds _ h]
      exact alike_string l rfl
  | charAt => exact alike_string l (congrArg _ (l.whole first))
  | indexOf =>
      dsimp only
      rw [text]
      exact alike_pure l (.foundAt _)
  | includes => exact alike_bool l (by rw [text])
  | startsWith => exact alike_bool l (by rw [text])
  | endsWith => exact alike_bool l (by rw [text])
  | _ => exact alike_string l rfl

theorem alike_fixedText (x : Float) (places : Number.Whole) :
    RunsAlike .value (fixedText x places) (fixedText x places) s s' := by
  unfold fixedText
  split
  · split
    · exact alike_fail rfl
    · split <;> exact alike_string l rfl
  · exact alike_fail rfl

theorem alike_numberMethod (m : NumberMethod) (x : Float) {arguments arguments' : List Value}
    (h : Likeness.values arguments arguments' s s') :
    RunsAlike .value (m.run x arguments) (m.run x arguments') s s' := by
  cases m with
  | toString => exact alike_string l rfl
  | toFixed =>
      refine .reading ?_
      rw [l.whole (h.argument .undefined 0)]
      exact alike_fixedText l x _

theorem alike_plainNative (n : PlainNative) {arguments arguments' : List Value}
    (h : Likeness.values arguments arguments' s s') :
    RunsAlike .value (n.run arguments) (n.run arguments') s s' := by
  have first := h.argument .undefined 0
  have text := l.text first
  have hempty : arguments.isEmpty = arguments'.isEmpty := by cases h <;> rfl
  refine .reading ?_
  cases n with
  | string => exact alike_string l (by rw [hempty, text])
  | number => exact alike_number l (by rw [hempty, l.number first])
  | boolean => exact alike_bool l first.truthy
  | escape => exact alike_string l (by rw [first.isNullish, text])
  | unescape => exact alike_string l (by rw [first.isNullish, text])
  | keys =>
      refine alike_newArray l ?_
      rw [List.toList_toArray, List.toList_toArray]
      exact List.rel_map (fun p q hp => .of_string (l.key hp.2)) (l.entries first)
  | values =>
      refine alike_newArray l ?_
      rw [List.toList_toArray, List.toList_toArray]
      exact List.rel_map (fun p q hp => hp.1) (l.entries first)
  | size => exact alike_number l (congrArg Number.ofNat (l.size first))
  | isEmpty => exact alike_bool l (congrArg (· == 0) (l.size first))
  | noop => exact alike_pure l .undefined

theorem alike_collect (m : ArrayVisit) {items items' returned returned' : List Value}
    (hi : Likeness.values items items' s s') (hr : Likeness.values returned returned' s s') :
    RunsAlike .value (m.collect items returned) (m.collect items' returned') s s' := by
  cases m with
  | forEach => exact alike_pure l .undefined
  | map => exact alike_newArray l hr
  | filter => exact alike_newArray l (related_kept Value.Alike.truthy hi hr)

end

end Stencil.Script
