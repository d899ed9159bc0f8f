import Stencil.Proofs.Numbers.Whole
import Stencil.Proofs.Runs.Heap

/-!
# Values — slices

A number stands for a place in an array or a string: `RelativePlace`.  It is cut to its whole part,
negative ones count from the end, and what lies outside is moved to the nearer end.

* `relativePlace_placeIn`: this is the place that is computed for a number.
* `sliceBounds_places`: a slice begins and ends at the places of its arguments.
* `slice_array_splits`, `slice_string_splits`: two slices that meet at a number are the whole.
* `slices_split`: all of this, for any arguments.
-/

namespace Stencil.Script
open Number (exact towardZero signBit)

/-! ### Places -/

/-- **The place that a number stands for** in something of the given length: its whole part counts from
the beginning, or from the end if it is negative, and what lies outside is moved to the nearer end. -/
inductive RelativePlace (length : ℕ) (x : Float) (p : ℕ) : Prop where
  | undefined (h : x.isNaN = true) (hp : p = 0)
  | below (h : x.isInf = true) (hs : signBit x = true) (hp : p = 0)
  | above (h : x.isInf = true) (hs : signBit x = false) (hp : p = length)
  | fromStart (h : x.isFinite = true) (hx : 0 ≤ towardZero (exact x))
      (hp : (p : ℤ) = min (towardZero (exact x)) length)
  | fromEnd (h : x.isFinite = true) (hx : towardZero (exact x) < 0)
      (hp : (p : ℤ) = max (length + towardZero (exact x)) 0)

/-- The place that an argument of a slice stands for, a missing one standing for a default. -/
inductive ArgumentPlace (s : Store) (length default : ℕ) (v : Value) (p : ℕ) : Prop where
  | missing (hv : v = .undefined) (hp : p = default)
  | given (hv : v ≠ .undefined) (hp : RelativePlace length (s.number v) p)

section
variable (s : Store) (length : ℕ)

theorem placeIn_le (n : Number.Whole) : placeIn length n ≤ length := by
  cases n with
  | below => exact Nat.zero_le _
  | «at» n =>
      rw [placeIn]
      split <;> omega
  | above => exact Nat.le_refl _

theorem relativePlace_placeIn (x : Float) :
    RelativePlace length x (placeIn length (Number.wholePart x)) := by
  -- The cases are those of the whole part, which is cut before it is told whether it is negative.
  by_cases hnan : x.isNaN = true
  · exact .undefined hnan (by rw [Number.wholePart, if_pos hnan]; simp [placeIn])
  by_cases hinf : x.isInf = true
  · by_cases hs : signBit x = true
    · exact .below hinf hs (by rw [Number.wholePart, if_neg hnan, if_pos hinf, if_pos hs, placeIn])
    · exact .above hinf (Bool.eq_false_iff.mpr hs)
        (by rw [Number.wholePart, if_neg hnan, if_pos hinf, if_neg hs, placeIn])
  have hfinite : x.isFinite = true :=
    ((Number.isNaN_or_isInf_or_isFinite x).resolve_left hnan).resolve_left hinf
  rw [Number.wholePart_of_isFinite hfinite, placeIn]
  by_cases hx : towardZero (exact x) < 0
  · exact .fromEnd hfinite hx (by rw [if_pos hx]; omega)
  · exact .fromStart hfinite (by omega) (by rw [if_neg hx]; omega)

theorem bound_le {default : ℕ} (h : default ≤ length) (v : Value) :
    s.bound length default v ≤ length := by
  cases v <;> first | exact h | exact placeIn_le length _

theorem argumentPlace_bound (default : ℕ) (v : Value) :
    ArgumentPlace s length default v (s.bound length default v) := by
  cases v <;> first
    | exact .missing rfl rfl
    | exact .given (by simp) (relativePlace_placeIn length _)

/-- **Where a slice begins and ends**: at the places of the arguments, and not before it begins. -/
theorem sliceBounds_places (arguments : List Value) : ∃ first last,
    sliceBounds s length arguments = (first, max last first) ∧
      ArgumentPlace s length 0 (argument arguments 0) first ∧
      ArgumentPlace s length length (argument arguments 1) last ∧
      first ≤ length ∧ last ≤ length :=
  ⟨_, _, rfl, argumentPlace_bound s length 0 _, argumentPlace_bound s length length _,
    bound_le s length (Nat.zero_le _) _, bound_le s length (Nat.le_refl _) _⟩

end

/-! ### Slices -/

/-- A store with one more array. -/
def Store.withArray (s : Store) (items : Array Value) : Store :=
  { s with arrays := s.arrays.push items }

section
variable (s : Store)

theorem Store.items_withArray_size (items : Array Value) :
    (s.withArray items).items s.arrays.size = items := by
  rw [withArray, items_push, if_pos rfl]

theorem Store.items_withArray_of_lt (items : Array Value) {a : Ref} (ha : a < s.arrays.size) :
    (s.withArray items).items a = s.items a := by
  rw [withArray, items_push, if_neg (Nat.ne_of_lt ha)]

theorem Store.size_withArray (items : Array Value) :
    (s.withArray items).arrays.size = s.arrays.size + 1 :=
  Array.size_push _

theorem run_slice_array (a : Ref) (arguments : List Value) :
    ArrayMethod.slice.run a arguments s =
      newArray ((s.items a).extract (sliceBounds s (s.items a).size arguments).1
        (sliceBounds s (s.items a).size arguments).2) s :=
  rfl

theorem run_slice_string (t : String) (arguments : List Value) :
    StringMethod.slice.run t arguments s =
      .ok (.string (String.ofList (t.toList.extract (sliceBounds s t.length arguments).1
        (sliceBounds s t.length arguments).2))) s := by
  rw [List.extract_eq_take_drop, ← List.drop_take]
  rfl

/-- A slice up to a number ends where that from this number on begins. -/
theorem sliceBounds_number (length : ℕ) (k : Float) :
    sliceBounds s length [.number 0, .number k] = (0, placeIn length (Number.wholePart k)) ∧
      sliceBounds s length [.number k] = (placeIn length (Number.wholePart k), length) := by
  have hzero : placeIn length (Number.wholePart 0) = 0 := by
    rw [show Number.wholePart 0 = .at 0 by decide +kernel]
    simp [placeIn]
  simp only [sliceBounds, argument, List.getD_cons_zero, List.getD_cons_succ, List.getD_nil,
    Store.bound, Store.whole, Store.number, hzero, Nat.max_zero,
    Nat.max_eq_left (placeIn_le length _), and_self]

/-- Nothing lies between a place and one before it. -/
theorem extract_max {α : Type} (xs : List α) (first last : ℕ) :
    xs.extract first (max last first) = xs.extract first last := by
  have hcount : max last first - first = last - first := by omega
  rw [List.extract_eq_take_drop, hcount]

/-- What lies up to a place and what lies from this place on is all. -/
theorem extract_append_rest {α : Type} (xs : List α) (p : ℕ) :
    xs.extract 0 p ++ xs.extract p xs.length = xs := by
  have hrest : (xs.drop p).take (xs.length - p) = xs.drop p :=
    List.take_of_length_le (Nat.le_of_eq List.length_drop)
  rw [List.extract_eq_take_drop, List.extract_eq_take_drop, hrest, Nat.sub_zero, List.drop_zero,
    List.take_append_drop]

theorem slice_array_splits {a : Ref} (ha : a < s.arrays.size) (k : Float) : ∃ b c t u,
    ArrayMethod.slice.run a [.number 0, .number k] s = .ok (.array b) t ∧
      ArrayMethod.slice.run a [.number k] t = .ok (.array c) u ∧
      u.items b ++ u.items c = s.items a := by
  obtain ⟨p, hp⟩ : ∃ p, placeIn (s.items a).size (Number.wholePart k) = p := ⟨_, rfl⟩
  have hfirst : ArrayMethod.slice.run a [.number 0, .number k] s =
      .ok (.array s.arrays.size) (s.withArray ((s.items a).extract 0 p)) := by
    rw [run_slice_array, (sliceBounds_number s _ k).1, hp]
    rfl
  -- The second slice is taken in a store that has the first one as well, and not in `s`.
  obtain ⟨t, ht⟩ : ∃ t, t = s.withArray ((s.items a).extract 0 p) := ⟨_, rfl⟩
  have hsize : s.arrays.size < t.arrays.size := by
    rw [ht, Store.size_withArray]
    exact Nat.lt_succ_self _
  have hitems : t.items a = s.items a := ht ▸ s.items_withArray_of_lt _ ha
  have hsecond : ArrayMethod.slice.run a [.number k] t =
      .ok (.array t.arrays.size) (t.withArray ((s.items a).extract p (s.items a).size)) := by
    rw [run_slice_array, hitems, (sliceBounds_number t _ k).2, hp]
    rfl
  refine ⟨_, _, _, _, ht ▸ hfirst, hsecond, ?_⟩
  rw [Store.items_withArray_size, t.items_withArray_of_lt _ hsize, ht, Store.items_withArray_size]
  apply Array.ext'
  rw [Array.toList_append, Array.toList_extract, Array.toList_extract, ← Array.length_toList,
    extract_append_rest]

theorem slice_string_splits (t : String) (k : Float) : ∃ p q,
    StringMethod.slice.run t [.number 0, .number k] s = .ok (.string p) s ∧
      StringMethod.slice.run t [.number k] s = .ok (.string q) s ∧ p ++ q = t := by
  obtain ⟨hfront, hback⟩ := sliceBounds_number s t.length k
  refine ⟨_, _, run_slice_string s t _, run_slice_string s t _, ?_⟩
  rw [hfront, hback, ← String.ofList_append, ← String.length_toList, extract_append_rest,
    String.ofList_toList]

end

/-- **Slices are safe and split exactly.**  Their bounds lie in order within the length, they hold what
lies between the places of their arguments, and up to a number and from this number on they are the
whole array or string. -/
theorem slices_split (s : Store) :
    (∀ length arguments, ∃ first last, sliceBounds s length arguments = (first, last) ∧
      first ≤ last ∧ last ≤ length) ∧
    (∀ a arguments, ∃ first last, ArgumentPlace s (s.items a).size 0 (argument arguments 0) first ∧
      ArgumentPlace s (s.items a).size (s.items a).size (argument arguments 1) last ∧
      ArrayMethod.slice.run a arguments s = newArray ((s.items a).extract first last) s) ∧
    (∀ t arguments, ∃ first last, ArgumentPlace s t.length 0 (argument arguments 0) first ∧
      ArgumentPlace s t.length t.length (argument arguments 1) last ∧
      StringMethod.slice.run t arguments s =
        .ok (.string (String.ofList (t.toList.extract first last))) s) ∧
    (∀ a < s.arrays.size, ∀ k, ∃ b c t u,
      ArrayMethod.slice.run a [.number 0, .number k] s = .ok (.array b) t ∧
        ArrayMethod.slice.run a [.number k] t = .ok (.array c) u ∧
        u.items b ++ u.items c = s.items a) ∧
    (∀ t k, ∃ p q, StringMethod.slice.run t [.number 0, .number k] s = .ok (.string p) s ∧
      StringMethod.slice.run t [.number k] s = .ok (.string q) s ∧ p ++ q = t) := by
  refine ⟨fun length arguments => ?_, fun a arguments => ?_, fun t arguments => ?_,
    fun a ha k => slice_array_splits s ha k, slice_string_splits s⟩
  · obtain ⟨first, last, heq, -, -, hfirst, hlast⟩ := sliceBounds_places s length arguments
    exact ⟨first, _, heq, Nat.le_max_right _ _, Nat.max_le.mpr ⟨hlast, hfirst⟩⟩
  · obtain ⟨first, last, heq, hfirst, hlast, -, -⟩ := sliceBounds_places s (s.items a).size arguments
    refine ⟨first, last, hfirst, hlast, ?_⟩
    have hextract : (s.items a).extract first (max last first) = (s.items a).extract first last := by
      apply Array.ext'
      rw [Array.toList_extract, Array.toList_extract, extract_max]
    rw [run_slice_array, heq, hextract]
  · obtain ⟨first, last, heq, hfirst, hlast, -, -⟩ := sliceBounds_places s t.length arguments
    refine ⟨first, last, hfirst, hlast, ?_⟩
    rw [run_slice_string, heq, extract_max]

theorem slices_split_fromEnd :
    ∃ b c t u, ArrayMethod.slice.run 0 [.number 0, .number (-1.5)]
        { Store.empty with arrays := #[#[.null, .bool true, .bool false]] } = .ok (.array b) t ∧
      ArrayMethod.slice.run 0 [.number (-1.5)] t = .ok (.array c) u ∧
        u.items b ++ u.items c = #[.null, .bool true, .bool false] :=
  (slices_split { Store.empty with arrays := #[#[.null, .bool true, .bool false]] }).2.2.2.1 0
    (by decide) (-1.5)

end Stencil.Script
