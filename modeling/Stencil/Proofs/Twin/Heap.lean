import Stencil.Proofs.Twin.Values

/-!
# Twin — two runs on the heap

`K.Twin R m m' s s'` says that the runs `m` from `s` and `m'` from `s'` end alike: both with results
that `R` relates, in linked stores, or both with the same fault, or both because they were not given
enough steps.

* `Twin.bind`, `Twin.bind_run`, `Twin.reading`: how runs compose.
* `twin_operate`, `twin_getProperty`, `twin_setProperty`: operators and properties.
* `twin_arrayMethod`, `twin_stringMethod`, `twin_numberMethod`, `twin_plainNative`: what the
  language provides, where it calls no function.
-/

namespace Stencil.Script

namespace Link

variable {K : Link} {s s' : Store}

/-! ### Linked stores -/

theorem Linked.pushArray (l : K.Linked s s') {xs ys : Array Value}
    (h : K.SameValues xs.toList ys.toList) :
    K.Linked { s with arrays := s.arrays.push xs } { s' with arrays := s'.arrays.push ys } where
  items {a b} hab := by
    rw [Store.items_push, Store.items_push]
    have hnew : a = s.arrays.size ↔ b = s'.arrays.size := K.arrays_iff hab (l.nextArray 0)
    by_cases ha : a = s.arrays.size
    · rw [if_pos ha, if_pos (hnew.mp ha)]
      exact h
    · rw [if_neg ha, if_neg fun hb => ha (hnew.mpr hb)]
      exact l.items hab
  fields := l.fields
  arrays_lt {a b} hab := by
    have hnew : a = s.arrays.size ↔ b = s'.arrays.size := K.arrays_iff hab (l.nextArray 0)
    rw [Array.size_push, Array.size_push, Nat.lt_succ_iff_lt_or_eq, Nat.lt_succ_iff_lt_or_eq,
      l.arrays_lt hab, hnew]
  objects_lt := l.objects_lt
  nextArray i := by
    have h := l.nextArray (i + 1)
    simp only [Array.size_push]
    rwa [Nat.add_assoc, Nat.add_assoc, Nat.add_comm 1 i]
  nextObject := l.nextObject
  functions := l.functions
  closures := l.closures
  scopes := l.scopes
  depth := l.depth

theorem Linked.pushObject (l : K.Linked s s') {fields fields' : Fields}
    (h : List.Forall₂ K.SameField fields fields') :
    K.Linked { s with objects := s.objects.push fields }
      { s' with objects := s'.objects.push fields' } where
  items := l.items
  fields {a b} hab := by
    rw [Store.fields_push, Store.fields_push]
    have hnew : a = s.objects.size ↔ b = s'.objects.size := K.objects_iff hab (l.nextObject 0)
    by_cases ha : a = s.objects.size
    · rw [if_pos ha, if_pos (hnew.mp ha)]
      exact h
    · rw [if_neg ha, if_neg fun hb => ha (hnew.mpr hb)]
      exact l.fields hab
  arrays_lt := l.arrays_lt
  objects_lt {a b} hab := by
    have hnew : a = s.objects.size ↔ b = s'.objects.size := K.objects_iff hab (l.nextObject 0)
    rw [Array.size_push, Array.size_push, Nat.lt_succ_iff_lt_or_eq, Nat.lt_succ_iff_lt_or_eq,
      l.objects_lt hab, hnew]
  nextArray := l.nextArray
  nextObject i := by
    have h := l.nextObject (i + 1)
    simp only [Array.size_push]
    rwa [Nat.add_assoc, Nat.add_assoc, Nat.add_comm 1 i]
  functions := l.functions
  closures := l.closures
  scopes := l.scopes
  depth := l.depth

theorem Linked.modifyArray (l : K.Linked s s') {a b : Ref} (hab : K.arrays a b)
    {f g : Array Value → Array Value}
    (h : K.SameValues (f (s.items a)).toList (g (s'.items b)).toList) :
    K.Linked { s with arrays := s.arrays.modify a f }
      { s' with arrays := s'.arrays.modify b g } where
  items {c d} hcd := by
    rw [Store.items_modify, Store.items_modify]
    have hsame := K.arrays_iff hab hcd
    have hin := l.arrays_lt hcd
    by_cases hc : a = c ∧ c < s.arrays.size
    · obtain ⟨rfl, hlt⟩ := hc
      obtain rfl := hsame.mp rfl
      rw [if_pos ⟨rfl, hlt⟩, if_pos ⟨rfl, hin.mp hlt⟩]
      exact h
    · rw [if_neg hc, if_neg fun hd => hc ⟨hsame.mpr hd.1, hin.mpr hd.2⟩]
      exact l.items hcd
  fields := l.fields
  arrays_lt hcd := by simpa only [Array.size_modify] using l.arrays_lt hcd
  objects_lt := l.objects_lt
  nextArray i := by simpa only [Array.size_modify] using l.nextArray i
  nextObject := l.nextObject
  functions := l.functions
  closures := l.closures
  scopes := l.scopes
  depth := l.depth

theorem Linked.modifyObject (l : K.Linked s s') {a b : Ref} (hab : K.objects a b)
    {f g : Fields → Fields} (h : List.Forall₂ K.SameField (f (s.fields a)) (g (s'.fields b))) :
    K.Linked { s with objects := s.objects.modify a f }
      { s' with objects := s'.objects.modify b g } where
  items := l.items
  fields {c d} hcd := by
    rw [Store.fields_modify, Store.fields_modify]
    have hsame := K.objects_iff hab hcd
    have hin := l.objects_lt hcd
    by_cases hc : a = c ∧ c < s.objects.size
    · obtain ⟨rfl, hlt⟩ := hc
      obtain rfl := hsame.mp rfl
      rw [if_pos ⟨rfl, hlt⟩, if_pos ⟨rfl, hin.mp hlt⟩]
      exact h
    · rw [if_neg hc, if_neg fun hd => hc ⟨hsame.mpr hd.1, hin.mpr hd.2⟩]
      exact l.fields hcd
  arrays_lt := l.arrays_lt
  objects_lt hcd := by simpa only [Array.size_modify] using l.objects_lt hcd
  nextArray := l.nextArray
  nextObject i := by simpa only [Array.size_modify] using l.nextObject i
  functions := l.functions
  closures := l.closures
  scopes := l.scopes
  depth := l.depth

/-! ### Two runs -/

/-- **The ends of two runs** that correspond. -/
inductive Ends (K : Link) {α : Type} (R : α → α → Prop) : Outcome α → Outcome α → Prop where
  | ok {a b : α} {s s' : Store} (h : R a b) (l : K.Linked s s') : Ends K R (.ok a s) (.ok b s')
  | error (e : Stop) (s s' : Store) : Ends K R (.error e s) (.error e s')

/-- **Two runs that end alike.** -/
def Twin (K : Link) {α : Type} (R : α → α → Prop) (m m' : Run α) (s s' : Store) : Prop :=
  K.Ends R (m s) (m' s')

section
variable {α β : Type} {R : α → α → Prop} {P : β → β → Prop}

/-- Composition, for those who look at where the first runs end. -/
theorem Twin.bind_run {m m' : Run α} {f f' : α → Run β} (h : K.Twin R m m' s s')
    (hf : ∀ a b t t', m s = .ok a t → m' s' = .ok b t' → R a b → K.Linked t t' →
      K.Twin P (f a) (f' b) t t') :
    K.Twin P (m >>= f) (m' >>= f') s s' := by
  unfold Twin at h ⊢
  rw [run_bind, run_bind]
  generalize hm : m s = r at h
  generalize hm' : m' s' = r' at h
  cases h with
  | ok hab l => exact hf _ _ _ _ hm hm' hab l
  | error e t t' => exact .error e t t'

theorem Twin.bind {m m' : Run α} {f f' : α → Run β} (h : K.Twin R m m' s s')
    (hf : ∀ a b t t', R a b → K.Linked t t' → K.Twin P (f a) (f' b) t t') :
    K.Twin P (m >>= f) (m' >>= f') s s' :=
  h.bind_run fun a b t t' _ _ => hf a b t t'

theorem twin_pure (l : K.Linked s s') {a b : α} (h : R a b) :
    K.Twin R (pure a) (pure b) s s' :=
  .ok h l

theorem twin_fail {f g : Fault} (h : f = g) : K.Twin R (fail f) (fail g) s s' :=
  h ▸ .error _ _ _

theorem twin_exhausted : K.Twin R (throw .exhausted) (throw .exhausted) s s' :=
  .error _ _ _

theorem Twin.reading {k k' : Store → Run β} (h : K.Twin P (k s) (k' s') s s') :
    K.Twin P (get >>= k) (get >>= k') s s' :=
  h

theorem twin_asCall {m m' : Run α} (h : K.Twin R m m' { s with depth := s.depth + 1 }
    { s' with depth := s'.depth + 1 }) : K.Twin R (asCall m) (asCall m') s s' := by
  unfold Twin at h ⊢
  simp only [asCall]
  generalize m { s with depth := s.depth + 1 } = r at h
  generalize m' { s' with depth := s'.depth + 1 } = r' at h
  cases h with
  | ok hab l =>
      refine .ok hab { l with depth := ?_ }
      exact congrArg (· - 1) l.depth
  | error e t t' => exact .error e _ _

end

/-- Two runs that end alike, whose results are the same value. -/
abbrev TwinValues (K : Link) (m m' : Run Value) (s s' : Store) : Prop :=
  K.Twin K.Same m m' s s'

/-- Two runs that end alike and have no result. -/
abbrev TwinUnit (K : Link) (m m' : Run Unit) (s s' : Store) : Prop :=
  K.Twin (fun _ _ => True) m m' s s'

section
variable (l : K.Linked s s')
include l

theorem twin_string {t u : String} (h : t = u) :
    K.TwinValues (pure (.string t)) (pure (.string u)) s s' :=
  twin_pure l (same_string h)

theorem twin_number {x y : Float} (h : x = y) :
    K.TwinValues (pure (.number x)) (pure (.number y)) s s' :=
  twin_pure l (same_number h)

theorem twin_bool {a b : Bool} (h : a = b) :
    K.TwinValues (pure (.bool a)) (pure (.bool b)) s s' :=
  twin_pure l (same_bool h)

theorem twin_newArray {xs ys : Array Value} (h : K.SameValues xs.toList ys.toList) :
    K.TwinValues (newArray xs) (newArray ys) s s' :=
  .ok (.array (l.nextArray 0)) (l.pushArray h)

theorem twin_newObject {fields fields' : Fields} (h : List.Forall₂ K.SameField fields fields') :
    K.TwinValues (newObject fields) (newObject fields') s s' :=
  .ok (.object (l.nextObject 0)) (l.pushObject h)

theorem twin_changeItems {a b : Ref} (hab : K.arrays a b) {f g : Array Value → Array Value}
    (h : K.SameValues (f (s.items a)).toList (g (s'.items b)).toList) :
    K.TwinUnit (changeItems a f) (changeItems b g) s s' :=
  .ok trivial (l.modifyArray hab h)

theorem twin_changeFields {a b : Ref} (hab : K.objects a b) {f g : Fields → Fields}
    (h : List.Forall₂ K.SameField (f (s.fields a)) (g (s'.fields b))) :
    K.TwinUnit (changeFields a f) (changeFields b g) s s' :=
  .ok trivial (l.modifyObject hab h)

/-! ### Operators -/

theorem twin_join {a b c d : String} (h : a = c) (h' : b = d) :
    K.TwinValues (add.join a b) (add.join c d) s s' := by
  subst h h'
  unfold add.join
  split
  · exact twin_fail rfl
  · exact twin_string l rfl

theorem twin_add {v v' w w' : Value} (h : K.Same v w) (h' : K.Same v' w') :
    K.TwinValues (add v v') (add w w') s s' := by
  refine .reading ?_
  have p := l.primitive h
  have p' := l.primitive h'
  have text := l.text p
  have text' := l.text p'
  have number := l.number p
  have number' := l.number p'
  generalize s.primitive v = a at *
  generalize s.primitive v' = a' at *
  generalize s'.primitive w = b at *
  generalize s'.primitive w' = b' at *
  -- A text on either side makes it a join.
  cases p with
  | string _ => exact twin_join l rfl text'
  | _ =>
      cases p' with
      | string _ => exact twin_join l text rfl
      | _ => exact twin_number l (congrArg₂ (· + ·) number number')

theorem twin_operate (op : BinaryOp) {v v' w w' : Value} (h : K.Same v w) (h' : K.Same v' w') :
    K.TwinValues (operate op v v') (operate op w w') s s' := by
  cases op with
  | add => exact twin_add l h h'
  | sub => exact .reading (twin_number l (congrArg₂ (· - ·) (l.number h) (l.number h')))
  | mul => exact .reading (twin_number l (congrArg₂ (· * ·) (l.number h) (l.number h')))
  | div => exact .reading (twin_number l (congrArg₂ (· / ·) (l.number h) (l.number h')))
  | rem => exact .reading (twin_number l (congrArg₂ _ (l.number h) (l.number h')))
  | equal => exact .reading (twin_bool l (l.looseEqual h h'))
  | notEqual => exact .reading (twin_bool l (congrArg _ (l.looseEqual h h')))
  | same => exact .reading (twin_bool l (h.strictEqual h'))
  | notSame => exact .reading (twin_bool l (congrArg _ (h.strictEqual h')))
  | less => exact .reading (twin_bool l (congrArg (· == some .lt) (l.order h h')))
  | lessEqual =>
      exact .reading (twin_bool l (congrArg (fun o => o == some .lt || o == some .eq) (l.order h h')))
  | greater => exact .reading (twin_bool l (congrArg (· == some .gt) (l.order h h')))
  | greaterEqual =>
      exact .reading (twin_bool l (congrArg (fun o => o == some .gt || o == some .eq) (l.order h h')))

theorem twin_applyUnary (op : UnaryOp) {v w : Value} (h : K.Same v w) :
    K.TwinValues (applyUnary op v) (applyUnary op w) s s' := by
  cases op with
  | not => exact .reading (twin_bool l (congrArg _ h.truthy))
  | negate => exact .reading (twin_number l (congrArg _ (l.number h)))
  | plus => exact .reading (twin_number l (l.number h))
  | typeof => exact .reading (twin_string l h.typeName)

end

/-! ### Properties -/

theorem foundAt_same (i : Option Nat) : K.Same (foundAt i) (foundAt i) := by
  cases i <;> exact .number _

theorem findIdx?_same {xs ys : Array Value} (h : K.SameValues xs.toList ys.toList) {v w : Value}
    (hv : K.Same v w) : xs.findIdx? (strictEqual · v) = ys.findIdx? (strictEqual · w) := by
  have lists : ∀ {xs ys : List Value}, K.SameValues xs ys →
      xs.findIdx? (strictEqual · v) = ys.findIdx? (strictEqual · w) := by
    intro xs ys h
    induction h with
    | nil => rfl
    | cons hx _ ih => simp only [List.findIdx?_cons, hx.strictEqual hv, ih]
  obtain ⟨xs⟩ := xs
  obtain ⟨ys⟩ := ys
  simpa only [List.findIdx?_toArray] using lists h

theorem any_same {xs ys : Array Value} (h : K.SameValues xs.toList ys.toList) {v w : Value}
    (hv : K.Same v w) : xs.any (strictEqual · v) = ys.any (strictEqual · w) := by
  have lists : ∀ {xs ys : List Value}, K.SameValues xs ys →
      xs.any (strictEqual · v) = ys.any (strictEqual · w) := by
    intro xs ys h
    induction h with
    | nil => rfl
    | cons hx _ ih => simp only [List.any_cons, hx.strictEqual hv, ih]
  rw [← Array.any_toList, ← Array.any_toList, lists h]

section
variable (l : K.Linked s s')
include l

theorem twin_getProperty {v w : Value} (h : K.Same v w) (key : String) :
    K.TwinValues (getProperty v key) (getProperty w key) s s' := by
  refine .reading ?_
  cases h with
  | undefined => exact twin_fail rfl
  | null => exact twin_fail rfl
  | object ho => exact twin_pure l (get?_sameFields (l.fields ho) key)
  | array ha => exact twin_pure l (related_itemAt (l.items ha) .undefined .number key)
  | string t =>
      refine twin_pure l ?_
      rw [characterAt]
      split
      · exact .number _
      · split
        · exact .string _
        · exact .undefined
  | _ => exact twin_pure l .undefined

theorem twin_setProperty {v w : Value} (h : K.Same v w) (key : String) {x y : Value}
    (hx : K.Same x y) : K.TwinUnit (setProperty v key x) (setProperty w key y) s s' := by
  cases h with
  | undefined => exact twin_fail rfl
  | null => exact twin_fail rfl
  | object ho => exact twin_changeFields l ho (put_sameFields (l.fields ho) key hx)
  | array ha =>
      have hsize := l.size_items ha
      have hnumber := l.number hx
      simp only [setProperty]
      split
      · refine .reading ?_
        rw [hsize]
        split
        · exact twin_fail rfl
        · exact twin_changeItems l ha (related_setItem (l.items ha) .undefined _ hx)
      · split
        · refine .reading ?_
          rw [hnumber]
          split
          · exact twin_changeItems l ha (related_resize (l.items ha) .undefined _)
          · exact twin_fail rfl
        · exact twin_pure l trivial
  | _ => exact twin_pure l trivial

theorem twin_loopItems {v w : Value} (h : K.Same v w) :
    K.Twin K.SameValues (loopItems v) (loopItems w) s s' := by
  refine .reading ?_
  have hd : s.describe v = s'.describe w := Linked.describe h
  cases h with
  | array ha => exact twin_pure l (l.items ha)
  | string t => exact twin_pure l (sameValues_strings Char.toString _)
  | _ => exact twin_fail (congrArg _ hd)

/-! ### Methods -/

theorem twin_arrayMethod (m : ArrayMethod) {a b : Ref} (ha : K.arrays a b)
    {arguments arguments' : List Value} (h : K.SameValues arguments arguments') :
    K.TwinValues (m.run a arguments) (m.run b arguments') s s' := by
  have first := h.argument 0
  cases m with
  | push =>
      refine (twin_changeItems l ha ?_).bind fun _ _ t t' _ l' =>
        .reading (twin_number l' (congrArg _ (l'.size_items ha)))
      simp only [Array.toList_append]
      exact List.rel_append (l.items ha) h
  | pop =>
      refine .reading ((twin_changeItems l ha ?_).bind fun _ _ t t' _ l' => twin_pure l' ?_)
      · simp only [Array.toList_pop]
        exact RelatedValues.dropLast (l.items ha)
      · exact related_last (l.items ha) .undefined
  | join =>
      refine .reading (twin_string l ?_)
      rw [l.joined (l.items ha)]
      have text := l.text first
      generalize argument arguments 0 = v at *
      generalize argument arguments' 0 = w at *
      cases first with
      | undefined => rfl
      | _ => exact congrArg _ text
  | indexOf =>
      refine .reading (twin_pure l ?_)
      rw [findIdx?_same (l.items ha) first]
      exact foundAt_same _
  | includes => exact .reading (twin_bool l (any_same (l.items ha) first))
  | slice =>
      refine .reading (twin_newArray l ?_)
      rw [l.size_items ha, l.bound _ _ first, l.bound _ _ (h.argument 1)]
      simp only [Array.toList_extract, List.extract_eq_take_drop]
      exact List.forall₂_take _ (List.forall₂_drop _ (l.items ha))
  | concat => exact .reading (twin_newArray l (related_concat (l.items ha) l.spread h))

theorem twin_repeated (t : String) (count : Number.Whole) :
    K.TwinValues (repeated t count) (repeated t count) s s' := by
  unfold repeated
  split
  · split
    · exact twin_fail rfl
    · split
      · exact twin_fail rfl
      · exact twin_string l rfl
  · exact twin_fail rfl

theorem twin_stringMethod (m : StringMethod) (t : String) {arguments arguments' : List Value}
    (h : K.SameValues arguments arguments') :
    K.TwinValues (m.run t arguments) (m.run t arguments') s s' := by
  have first := h.argument 0
  have text := l.text first
  refine .reading ?_
  cases m with
  | split =>
      have pieces : K.TwinValues
          (newArray ((Text.split (s.text (argument arguments 0)).toList t.toList).map
            fun piece => Value.string (String.ofList piece)).toArray)
          (newArray ((Text.split (s'.text (argument arguments' 0)).toList t.toList).map
            fun piece => Value.string (String.ofList piece)).toArray) s s' := by
        rw [text]
        exact twin_newArray l (sameValues_strings _ _)
      dsimp only
      generalize argument arguments 0 = v at *
      generalize argument arguments' 0 = w at *
      cases first with
      | undefined => exact twin_newArray l (.cons (.string t) .nil)
      | _ => exact pieces
  | «repeat» =>
      dsimp only
      rw [l.whole first]
      exact twin_repeated l t _
  | slice =>
      dsimp only
      rw [l.sliceBounds _ h]
      exact twin_string l rfl
  | charAt => exact twin_string l (congrArg _ (l.whole first))
  | indexOf =>
      dsimp only
      rw [text]
      exact twin_pure l (foundAt_same _)
  | includes => exact twin_bool l (by rw [text])
  | startsWith => exact twin_bool l (by rw [text])
  | endsWith => exact twin_bool l (by rw [text])
  | _ => exact twin_string l rfl

theorem twin_fixedText (x : Float) (places : Number.Whole) :
    K.TwinValues (fixedText x places) (fixedText x places) s s' := by
  unfold fixedText
  split
  · split
    · exact twin_fail rfl
    · split <;> exact twin_string l rfl
  · exact twin_fail rfl

theorem twin_numberMethod (m : NumberMethod) (x : Float) {arguments arguments' : List Value}
    (h : K.SameValues arguments arguments') :
    K.TwinValues (m.run x arguments) (m.run x arguments') s s' := by
  cases m with
  | toString => exact twin_string l rfl
  | toFixed =>
      refine .reading ?_
      rw [l.whole (h.argument 0)]
      exact twin_fixedText l x _

theorem twin_plainNative (n : PlainNative) {arguments arguments' : List Value}
    (h : K.SameValues arguments arguments') :
    K.TwinValues (n.run arguments) (n.run arguments') s s' := by
  have first := h.argument 0
  have text := l.text first
  have hempty : arguments.isEmpty = arguments'.isEmpty := by cases h <;> rfl
  refine .reading ?_
  cases n with
  | string => exact twin_string l (by rw [hempty, text])
  | number => exact twin_number l (by rw [hempty, l.number first])
  | boolean => exact twin_bool l first.truthy
  | escape => exact twin_string l (by rw [first.isNullish, text])
  | unescape => exact twin_string l (by rw [first.isNullish, text])
  | keys =>
      refine twin_newArray l ?_
      have hentries := l.entries first
      rw [List.toList_toArray, List.toList_toArray]
      refine List.rel_map (fun p q hp => ?_) hentries
      exact same_string (l.key hp.2)
  | values =>
      refine twin_newArray l ?_
      rw [List.toList_toArray, List.toList_toArray]
      exact List.rel_map (fun p q hp => hp.1) (l.entries first)
  | size => exact twin_number l (congrArg Number.ofNat (l.size first))
  | isEmpty => exact twin_bool l (congrArg (· == 0) (l.size first))
  | noop => exact twin_pure l .undefined

theorem twin_collect (m : ArrayVisit) {items items' returned returned' : List Value}
    (hi : K.SameValues items items') (hr : K.SameValues returned returned') :
    K.TwinValues (m.collect items returned) (m.collect items' returned') s s' := by
  cases m with
  | forEach => exact twin_pure l .undefined
  | map => exact twin_newArray l hr
  | filter => exact twin_newArray l (related_kept Same.truthy hi hr)

end

end Link
end Stencil.Script
