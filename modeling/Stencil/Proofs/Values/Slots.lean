import Stencil.Proofs.Numbers.Whole
import Stencil.Proofs.Runs.Heap

/-!
# Values — arrays as maps

To a script an array is a length and a value in each slot: `Slots`.  A key is that of a slot when it
is the slot's index, as a number or as its decimal text, and these are the same key
(`SlotKey.key_eq`).  Every other key but `length` is passed over.

* `Slots.put`, `Slots.cut`, `Slots.append`, `Slots.dropLast`: what a change makes of such a map.
* `Slots.After`, `Slots.Evolves`: the maps after a change and after a sequence of them.
* `slots_evolve`: an array goes with its map through any such sequence, and what is read from it
  afterwards is what the map says.
-/

namespace Stencil.Script

/-! ### Keys of slots -/

/-- An index is a key in one spelling, its decimal text. -/
theorem arrayIndex?_eq_some_iff {key : String} {i : ℕ} :
    arrayIndex? key = some i ↔ i < UInt64.size ∧ key = Number.natText i := by
  constructor
  · intro h
    rw [arrayIndex?] at h
    split at h
    · split at h
      · rename_i hn
        cases h
        exact ⟨hn.1, hn.2.symm⟩
      · cases h
    · cases h
  · rintro ⟨hi, rfl⟩
    have hvalue : Number.value? 10 (Number.natText i).toList = some i := by
      rw [Number.natText, String.toList_ofList, Number.value?_of_isDigit
        (List.ne_nil_of_length_pos (Number.length_decimalDigits_pos i)) (Number.isDigit_decimalDigits i),
        Number.value_decimalDigits]
    rw [arrayIndex?, hvalue]
    exact if_pos ⟨hi, rfl⟩

/-- **The keys of a slot**: its index as a number, and as its decimal text. -/
inductive SlotKey (i : ℕ) : Value → Prop where
  -- Zero with a sign is written without it, and so it is the key of the first slot, too.
  | number {x : Float} (hi : i < 2 ^ 53) (hx : (x == Number.ofNat i) = true) : SlotKey i (.number x)
  | text (hi : i < UInt64.size) : SlotKey i (.string (Number.natText i))

/-- Keys that are neither an index nor the length.  The text of an array depends on the store. -/
def StrayKey (k : Value) : Prop :=
  ∀ s : Store, s.key k ≠ "length" ∧ ∀ i < UInt64.size, s.key k ≠ Number.natText i

section
variable {i : ℕ} {k : Value}

/-- **A number and its decimal text are the same key.** -/
theorem SlotKey.key_eq (h : SlotKey i k) (s : Store) : s.key k = Number.natText i := by
  cases h with
  | number hi hx => exact Number.text_of_beq hi hx
  | text hi => rfl

theorem SlotKey.arrayIndex? (h : SlotKey i k) (s : Store) :
    Script.arrayIndex? (s.key k) = some i := by
  refine arrayIndex?_eq_some_iff.mpr ⟨?_, h.key_eq s⟩
  cases h with
  | number hi hx => exact hi.trans (by decide)
  | text hi => exact hi

theorem strayKey_string {t : String} (ht : t ≠ "length") (h : Script.arrayIndex? t = none) :
    StrayKey (.string t) := by
  refine fun s => ⟨ht, fun i hi heq => ?_⟩
  have hi : Script.arrayIndex? t = some i := arrayIndex?_eq_some_iff.mpr ⟨hi, heq⟩
  simp [h] at hi

example : ∀ t ∈ ["01", "+1", "1.0", "-0"], StrayKey (.string t) := fun t ht =>
  strayKey_string (fun h => absurd ht (h ▸ by decide)) (by revert t; decide)

theorem StrayKey.arrayIndex? (h : StrayKey k) (s : Store) : Script.arrayIndex? (s.key k) = none := by
  cases hi : Script.arrayIndex? (s.key k) with
  | none => rfl
  | some i =>
      obtain ⟨hsize, heq⟩ := arrayIndex?_eq_some_iff.mp hi
      exact absurd heq ((h s).2 i hsize)

end

theorem natText_ne_length (i : ℕ) : Number.natText i ≠ "length" := by
  intro h
  have hdigits := Number.isDigit_decimalDigits i
  rw [← String.toList_ofList (l := Number.decimalDigits i),
    show String.ofList (Number.decimalDigits i) = "length" from h] at hdigits
  exact absurd hdigits (by decide)

theorem newLength?_of_beq {x : Float} {k : ℕ} (hk : k ≤ maxArrayElements)
    (hx : (x == Number.ofNat k) = true) : newLength? x = some k := by
  have hbound : maxArrayElements ≤ 2 ^ 53 := by decide
  obtain ⟨hpart, hwhole⟩ := Number.wholePart_of_beq (hk.trans hbound) hx
  rw [newLength?, hpart]
  exact if_pos ⟨Int.natCast_nonneg k, Int.ofNat_le.mpr hk, hwhole⟩

/-! ### Maps -/

/-- **An array as a map**: a length, and a value in each slot.  There is nothing in the slots from the
length on, and they are read as `undefined`. -/
structure Slots where
  length : ℕ
  slot : ℕ → Value

namespace Slots

/-- The map of some elements. -/
def ofItems (items : Array Value) : Slots :=
  ⟨items.size, fun i => items.getD i .undefined⟩

/-- A value in a slot, and `undefined` in the slots from the length on before it. -/
def put (m : Slots) (i : ℕ) (v : Value) : Slots :=
  ⟨max m.length (i + 1),
    fun j => if j = i then v else if j < m.length then m.slot j else .undefined⟩

/-- Another length: what lies below both lengths is kept, and all else is `undefined`. -/
def cut (m : Slots) (length : ℕ) : Slots :=
  ⟨length, fun j => if j < min length m.length then m.slot j else .undefined⟩

/-- Values after the last slot. -/
def append (m : Slots) (vs : List Value) : Slots :=
  ⟨m.length + vs.length,
    fun j => if j < m.length then m.slot j else vs.getD (j - m.length) .undefined⟩

/-- The map without its last slot, if it has one. -/
def dropLast (m : Slots) : Slots :=
  m.cut (m.length - 1)

@[ext] protected theorem ext {m m' : Slots} (hl : m.length = m'.length)
    (hs : ∀ i, m.slot i = m'.slot i) : m = m' := by
  obtain ⟨l, f⟩ := m
  obtain ⟨l', f'⟩ := m'
  obtain rfl : l = l' := hl
  obtain rfl : f = f' := funext hs
  rfl

variable (items : Array Value)

theorem ofItems_setItem (i : ℕ) (v : Value) : ofItems (setItem items i v) = (ofItems items).put i v := by
  ext j
  · simp only [ofItems, put, setItem]
    split <;> simp <;> omega
  · simp only [ofItems, put, setItem, Array.getD_eq_getD_getElem?]
    split
    · rename_i hi
      rw [Array.getElem?_setIfInBounds]
      by_cases hj : j = i
      · subst hj
        simp [hi]
      · by_cases hlt : j < items.size <;> simp [hlt, hj, Ne.symm hj]
    -- The slot lies behind the end, and the gap before it is filled first.
    · rename_i hi
      have hsize : (items ++ Array.replicate (i - items.size) Value.undefined).size = i := by
        simp only [Array.size_append, Array.size_replicate]
        omega
      rw [Array.getElem?_push, hsize, Array.getElem?_append, Array.getElem?_replicate]
      split_ifs <;> rfl

theorem ofItems_resize (k : ℕ) : ofItems (resize items k) = (ofItems items).cut k := by
  have htake : items.take k = items.extract 0 k := Array.take_eq_extract
  ext j
  · simp only [ofItems, cut, resize, htake, Array.size_append, Array.size_extract,
      Array.size_replicate]
    omega
  · simp only [ofItems, cut, resize, htake, Array.getD_eq_getD_getElem?, Array.getElem?_append,
      Array.getElem?_replicate, Array.size_extract, Array.getElem?_extract]
    grind

theorem ofItems_append (vs : List Value) : ofItems (items ++ vs.toArray) = (ofItems items).append vs := by
  ext j
  · simp [ofItems, append]
  · simp only [ofItems, append, Array.getD_eq_getD_getElem?, List.getD_eq_getElem?_getD,
      Array.getElem?_append, List.getElem?_toArray]
    split_ifs <;> rfl

theorem ofItems_pop : ofItems items.pop = (ofItems items).dropLast := by
  ext j
  · simp [ofItems, dropLast, cut]
  · simp only [ofItems, dropLast, cut, Array.getD_eq_getD_getElem?, Array.getElem?_pop]
    grind

end Slots

/-! ### Changes -/

/-- A change of an array by a script. -/
inductive Change where
  | write (key value : Value)
  | setLength (value : Value)
  | push (values : List Value)
  | pop

/-- Runs a change, without the result of `push` and `pop`. -/
def Change.run (a : Ref) : Change → Run Unit
  | .write key value => do
    let s ← get
    setProperty (.array a) (s.key key) value
  | .setLength value => setProperty (.array a) "length" value
  | .push values => do
    let _ ← ArrayMethod.push.run a values
  | .pop => do
    let _ ← ArrayMethod.pop.run a []

/-- **The map after a change.**  A slot can be written if it is there already or can be within the
bound on lengths. -/
inductive Slots.After (m : Slots) : Change → Slots → Prop where
  | slot {i : ℕ} {key value : Value} (hkey : SlotKey i key) (hi : i < max maxArrayElements m.length) :
      m.After (.write key value) (m.put i value)
  | stray {key value : Value} (hkey : StrayKey key) : m.After (.write key value) m
  | length {k : ℕ} {x : Float} (hx : (x == Number.ofNat k) = true) (hk : k ≤ maxArrayElements) :
      m.After (.setLength (.number x)) (m.cut k)
  | push {values : List Value} : m.After (.push values) (m.append values)
  | pop : m.After .pop m.dropLast

/-- The map after a sequence of changes. -/
inductive Slots.Evolves : Slots → List Change → Slots → Prop where
  | nil {m : Slots} : m.Evolves [] m
  | cons {m m' m'' : Slots} {c : Change} {changes : List Change} (h : m.After c m')
      (hs : m'.Evolves changes m'') : m.Evolves (c :: changes) m''

/-- A store with other elements in an array. -/
def Store.withItems (s : Store) (a : Ref) (items : Array Value) : Store :=
  { s with arrays := s.arrays.setIfInBounds a items }

/-- The map of an array. -/
def Store.slots (s : Store) (a : Ref) : Slots :=
  .ofItems (s.items a)

section
variable {s : Store} {a : Ref}

theorem Store.slots_withItems (ha : a < s.arrays.size) (items : Array Value) :
    (s.withItems a items).slots a = .ofItems items := by
  simp [Store.slots, Store.items, Store.withItems, ha]

theorem Store.size_withItems (items : Array Value) :
    (s.withItems a items).arrays.size = s.arrays.size := by
  simp [Store.withItems]

theorem Store.withItems_withItems (items items' : Array Value) :
    (s.withItems a items).withItems a items' = s.withItems a items' := by
  simp [Store.withItems, Array.setIfInBounds_setIfInBounds]

theorem Store.withItems_self : s.withItems a (s.items a) = s := by
  have h : s.arrays.setIfInBounds a (s.arrays.getD a #[]) = s.arrays := by
    refine Array.ext (by simp) fun i hi hi' => ?_
    rw [Array.getElem_setIfInBounds]
    split
    · rename_i heq
      subst heq
      simp [hi']
    · rfl
  rw [Store.withItems, Store.items, h]

theorem changeItems_eq (f : Array Value → Array Value) :
    changeItems a f s = .ok () (s.withItems a (f (s.items a))) := by
  have h : s.arrays.modify a f = s.arrays.setIfInBounds a (f (s.arrays.getD a #[])) := by
    refine Array.ext (by simp) fun i hi hi' => ?_
    rw [Array.getElem_modify, Array.getElem_setIfInBounds]
    split
    · rename_i heq
      subst heq
      simp only [Array.size_modify] at hi
      simp [hi]
    · rfl
  rw [changeItems, Store.withItems, Store.items, ← h]
  rfl

/-- **A change goes with the map**: nothing but the array is changed, and its map as it should. -/
theorem Change.run_of_after {c : Change} {m : Slots} (h : (s.slots a).After c m) :
    ∃ items, c.run a s = .ok () (s.withItems a items) ∧ Slots.ofItems items = m := by
  cases h with
  | @slot i key value hkey hi =>
      have hfits : ¬((s.items a).size ≤ i ∧ maxArrayElements ≤ i) := by
        have : (s.slots a).length = (s.items a).size := rfl
        omega
      refine ⟨setItem (s.items a) i value, ?_, Slots.ofItems_setItem _ i value⟩
      rw [Change.run, run_get_bind, setProperty_index (hkey.arrayIndex? s), if_neg hfits, changeItems_eq]
  | @stray key value hkey =>
      refine ⟨s.items a, ?_, rfl⟩
      simp only [Change.run, run_get_bind, setProperty, hkey.arrayIndex? s, if_neg (hkey s).1]
      rw [Store.withItems_self]
      rfl
  | @length k x hx hk =>
      have hkey : arrayIndex? "length" = none := by decide +kernel
      refine ⟨resize (s.items a) k, ?_, Slots.ofItems_resize _ k⟩
      simp only [Change.run, setProperty, hkey, if_true, run_get_bind, Store.number,
        newLength?_of_beq hk hx, changeItems_eq]
  | @push values =>
      refine ⟨s.items a ++ values.toArray, ?_, Slots.ofItems_append _ values⟩
      simp only [Change.run, ArrayMethod.run, run_bind, changeItems_eq]
      rfl
  | pop =>
      refine ⟨(s.items a).pop, ?_, Slots.ofItems_pop _⟩
      simp only [Change.run, ArrayMethod.run, run_bind, changeItems_eq]
      rfl

/-- Reads a property by a key. -/
def readAt (base key : Value) : Run Value := do
  let s ← get
  getProperty base (s.key key)

/-- **What is read from an array is what a map says**: its length, the value in each slot, and
nothing by a key that is not that of a slot. -/
structure Slots.ReadFrom (m : Slots) (a : Ref) (s : Store) : Prop where
  length : getProperty (.array a) "length" s = .ok (.number (Number.ofNat m.length)) s
  slot {i : ℕ} {key : Value} (hkey : SlotKey i key) :
    readAt (.array a) key s = .ok (if i < m.length then m.slot i else .undefined) s
  stray {key : Value} (hkey : StrayKey key) : readAt (.array a) key s = .ok .undefined s

theorem Store.readFrom_slots (s : Store) (a : Ref) : (s.slots a).ReadFrom a s where
  length := rfl
  slot {i key} hkey := by
    have hne : s.key key ≠ "length" := hkey.key_eq s ▸ natText_ne_length i
    have hread : readAt (.array a) key s = .ok (itemAt (s.items a) (s.key key)) s := rfl
    rw [hread, itemAt, if_neg hne, hkey.arrayIndex? s]
    simp only [Store.slots, Slots.ofItems, Array.getD_eq_getD_getElem?]
    split_ifs with hi
    · rfl
    · rw [Array.getElem?_eq_none (by omega)]
      rfl
  stray {key} hkey := by
    have hread : readAt (.array a) key s = .ok (itemAt (s.items a) (s.key key)) s := rfl
    rw [hread, itemAt, if_neg (hkey s).1, hkey.arrayIndex? s]

/-- **Array slots behave as a map** through any sequence of writes, changes of the length, `push` and
`pop`, which change nothing else. -/
theorem slots_evolve {changes : List Change} {m : Slots} (ha : a < s.arrays.size)
    (h : (s.slots a).Evolves changes m) :
    ∃ items, changes.forM (Change.run a) s = .ok () (s.withItems a items) ∧
      (s.withItems a items).slots a = m ∧ m.ReadFrom a (s.withItems a items) := by
  suffices hrun : ∃ items, changes.forM (Change.run a) s = .ok () (s.withItems a items) ∧
      (s.withItems a items).slots a = m by
    obtain ⟨items, hrun, hslots⟩ := hrun
    exact ⟨items, hrun, hslots, hslots ▸ Store.readFrom_slots _ a⟩
  -- On the sequence of changes: each begins with the array that those before it left.
  generalize hm₀ : s.slots a = m₀ at h
  induction h generalizing s with
  | nil => exact ⟨s.items a, by rw [Store.withItems_self]; rfl, by rw [Store.withItems_self, hm₀]⟩
  | cons hc _ ih =>
      subst hm₀
      obtain ⟨items, hfirst, hslots⟩ := Change.run_of_after hc
      obtain ⟨items', hrest, hend⟩ := ih (s := s.withItems a items)
        (by rwa [Store.size_withItems]) (by rw [Store.slots_withItems ha, hslots])
      rw [Store.withItems_withItems] at hrest hend
      refine ⟨items', ?_, hend⟩
      rw [List.forM_eq_forM, List.forM_cons, run_bind, hfirst]
      exact hrest

theorem slots_evolve_regrown :
    let s : Store := { Store.empty with arrays := #[#[.bool true, .null]] }
    ∃ items, [Change.write (.string "3") .null, .setLength (.number 1), .write (.string "01") .null,
        .write (.number 2) (.bool true), .push [.null], .pop].forM (Change.run 0) s =
          .ok () (s.withItems 0 items) ∧
      (s.withItems 0 items).slots 0 =
        ((((s.slots 0).put 3 .null).cut 1).put 2 (.bool true) |>.append [.null]).dropLast ∧
      ((((s.slots 0).put 3 .null).cut 1).put 2 (.bool true) |>.append [.null]).dropLast.ReadFrom 0
        (s.withItems 0 items) :=
  slots_evolve (by decide)
    (.cons (.slot (.text (by decide)) (by decide)) <|
      .cons (.length (k := 1) (by decide) (by decide)) <|
      .cons (.stray (strayKey_string (by decide) (by decide))) <|
      .cons (.slot (.number (by decide) (by decide)) (by decide)) <|
      .cons .push <| .cons .pop .nil)

end

end Stencil.Script
