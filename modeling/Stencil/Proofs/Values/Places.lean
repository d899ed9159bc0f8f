import Stencil.Proofs.Values.Slices
import Stencil.Proofs.Values.Slots

/-!
# Values — places in strings

Searching, slicing and indexing a string count its characters alike.

* `indexOf?_isLeast`, `indexOf?_eq_none`: the search finds the least place where a part stands.
* `StandsAt`, `standsAt_iff`: a part stands at a place if the slice there that is as long is the part.
* `placeIn_ofNat`: a natural is its own place, or the end.
* `places_agree`: `indexOf`, `includes`, `startsWith` and `slice` agree (`Search`), and so do `charAt`,
  an index, `slice` and `split` (`Character`).
-/

namespace Stencil.Text
variable {part cs : List Char} {i : ℕ}

/-- **The search finds the least place** where the part stands. -/
theorem indexOf?_isLeast (h : indexOf? part cs = some i) :
    i ≤ cs.length ∧ IsLeast {j | part <+: cs.drop j} i := by
  induction cs generalizing i with
  | nil =>
      rw [indexOf?] at h
      split at h
      · rename_i hempty
        cases h
        have hpart : part = [] := List.isEmpty_iff.mp hempty
        exact ⟨Nat.le_refl 0, hpart ▸ List.nil_prefix, fun j _ => Nat.zero_le j⟩
      · cases h
  | cons c rest ih =>
      rw [indexOf?] at h
      split at h
      · rename_i hstands
        cases h
        exact ⟨Nat.zero_le _, List.isPrefixOf_iff_prefix.mp hstands, fun j _ => Nat.zero_le j⟩
      · rename_i hstands
        obtain ⟨i, hi, rfl⟩ := Option.map_eq_some_iff.mp h
        obtain ⟨hle, hmem, hleast⟩ := ih hi
        refine ⟨Nat.succ_le_succ hle, hmem, fun j hj => ?_⟩
        cases j with
        | zero => exact absurd (List.isPrefixOf_iff_prefix.mpr hj) hstands
        | succ j => exact Nat.succ_le_succ (hleast hj)

theorem indexOf?_eq_none (h : indexOf? part cs = none) (i : ℕ) : ¬ part <+: cs.drop i := by
  induction cs generalizing i with
  | nil =>
      rw [indexOf?] at h
      split at h
      · cases h
      · rename_i hempty
        rw [List.drop_nil, List.prefix_nil]
        exact fun hpart => hempty (List.isEmpty_iff.mpr hpart)
  | cons c rest ih =>
      rw [indexOf?] at h
      split at h
      · cases h
      · rename_i hstands
        cases i with
        | zero => exact fun hpart => hstands (List.isPrefixOf_iff_prefix.mpr hpart)
        | succ i => exact ih (Option.map_eq_none_iff.mp h) i

end Stencil.Text

namespace Stencil.Script

/-! ### Naturals as places -/

/-- **A natural is its own place**, also one that is rounded as a number. -/
theorem placeIn_ofNat {length : ℕ} (h : length ≤ 2 ^ 53) (n : ℕ) :
    placeIn length (Number.wholePart (Number.ofNat n)) = min n length := by
  rcases Nat.lt_or_ge n (2 ^ 53) with hn | hn
  · rw [Number.wholePart_ofNat hn.le, placeIn, if_neg (by omega), Int.toNat_natCast]
  · rcases Number.le_wholePart_ofNat hn with habove | ⟨m, hm, hat⟩
    · rw [habove, placeIn]
      omega
    · rw [hat, placeIn, if_neg (by omega), Int.toNat_natCast]
      omega

/-- Places behind the end of a list are as good as its end. -/
theorem extract_min {α : Type} (xs : List α) (i j : ℕ) :
    xs.extract (min i xs.length) (max (min j xs.length) (min i xs.length)) = xs.extract i j := by
  rw [extract_max, List.extract_eq_take_drop, List.extract_eq_take_drop]
  rcases Nat.le_total i xs.length with hi | hi
  · rw [Nat.min_eq_left hi, List.take_eq_take_iff, List.length_drop]
    omega
  · rw [Nat.min_eq_right hi, List.drop_length, List.drop_of_length_le hi, List.take_nil,
      List.take_nil]

/-- What a search gives is a natural or -1, which are told apart. -/
theorem ofNat_ne_neg_one {n : ℕ} (h : n ≤ 2 ^ 53) : Number.ofNat n ≠ -1 := by
  intro heq
  have hpart := Number.wholePart_ofNat h
  rw [heq, show Number.wholePart (-1) = .at (-1) by decide +kernel] at hpart
  injection hpart with hpart
  omega

section
variable (s : Store) {t : String} (h : t.length ≤ 2 ^ 53)
include h

/-- The slice from one natural to another. -/
theorem run_slice_ofNat (i j : ℕ) :
    StringMethod.slice.run t [.number (Number.ofNat i), .number (Number.ofNat j)] s =
      .ok (.string (String.ofList (t.toList.extract i j))) s := by
  have hbounds : sliceBounds s t.length [.number (Number.ofNat i), .number (Number.ofNat j)] =
      (min i t.toList.length, max (min j t.toList.length) (min i t.toList.length)) := by
    simp only [sliceBounds, argument, List.getD_cons_zero, List.getD_cons_succ, Store.bound,
      Store.whole, Store.number, placeIn_ofNat h, String.length_toList]
  rw [run_slice_string, hbounds, extract_min]

/-- **A part stands at a place** of a text if the slice there that is as long as the part is the part. -/
def StandsAt (s : Store) (t part : String) (i : ℕ) : Prop :=
  StringMethod.slice.run t [.number (Number.ofNat i), .number (Number.ofNat (i + part.length))] s =
    .ok (.string part) s

theorem standsAt_iff (part : String) (i : ℕ) :
    StandsAt s t part i ↔ part.toList <+: t.toList.drop i := by
  rw [StandsAt, run_slice_ofNat s h, List.extract_eq_take_drop, Nat.add_sub_cancel_left,
    ← String.length_toList, List.prefix_iff_eq_take]
  constructor
  · intro heq
    injection heq with heq
    injection heq with heq
    have hlist := congrArg String.toList heq
    rw [String.toList_ofList] at hlist
    exact hlist.symm
  · intro heq
    rw [← heq, String.ofList_toList]

/-- **What a search gives**: `indexOf` the least natural at which the slice as long as the part is the
part, and -1 if there is none, which is when `includes` is false; `startsWith` is true when
`indexOf` gives 0. -/
structure Search (s : Store) (t part : String) (x : Float) (found starts : Bool) : Prop where
  indexOf : StringMethod.indexOf.run t [.string part] s = .ok (.number x) s
  includes : StringMethod.includes.run t [.string part] s = .ok (.bool found) s
  startsWith : StringMethod.startsWith.run t [.string part] s = .ok (.bool starts) s
  least {i : ℕ} (hi : IsLeast {i | StandsAt s t part i} i) : x = Number.ofNat i
  absent : x = -1 ↔ ∀ i, ¬ StandsAt s t part i
  excluded : found = false ↔ ∀ i, ¬ StandsAt s t part i
  first : starts = true ↔ x = 0

/-- **The character at a place**, which `charAt`, an index, `slice` and `split` all give. -/
structure Character (s : Store) (t : String) (i : ℕ) (c : String) : Prop where
  charAt : StringMethod.charAt.run t [.number (Number.ofNat i)] s = .ok (.string c) s
  index : readAt (.string t) (.number (Number.ofNat i)) s = .ok (.string c) s
  slice : StringMethod.slice.run t [.number (Number.ofNat i), .number (Number.ofNat (i + 1))] s =
    .ok (.string c) s
  split : ∃ a u, StringMethod.split.run t [.string ""] s = .ok (.array a) u ∧
    (u.items a)[i]? = some (.string c)

theorem exists_search (part : String) : ∃ x found starts, Search s t part x found starts := by
  have hstarts : part.toList.isPrefixOf t.toList = true ↔ StandsAt s t part 0 := by
    rw [List.isPrefixOf_iff_prefix, standsAt_iff s h, List.drop_zero]
  have hindex : StringMethod.indexOf.run t [.string part] s =
      .ok (foundAt (Text.indexOf? part.toList t.toList)) s := rfl
  have hincludes : StringMethod.includes.run t [.string part] s =
      .ok (.bool (Text.indexOf? part.toList t.toList).isSome) s := rfl
  cases hfound : Text.indexOf? part.toList t.toList with
  | none =>
      rw [hfound] at hindex hincludes
      have hnone (i : ℕ) : ¬ StandsAt s t part i :=
        (standsAt_iff s h part i).not.mpr (Text.indexOf?_eq_none hfound i)
      exact ⟨-1, false, _, {
        indexOf := hindex
        includes := hincludes
        startsWith := rfl
        least := fun hi => absurd hi.1 (hnone _)
        absent := iff_of_true rfl hnone
        excluded := iff_of_true rfl hnone
        first := iff_of_false (fun hs => hnone 0 (hstarts.mp hs)) (by decide) }⟩
  | some i =>
      rw [hfound] at hindex hincludes
      obtain ⟨hle, hleast⟩ := Text.indexOf?_isLeast hfound
      rw [String.length_toList] at hle
      -- places up to the length are naturals that numbers hold exactly
      have hexact : i ≤ 2 ^ 53 := hle.trans h
      simp only [← standsAt_iff s h] at hleast
      have hsome : ¬ ∀ i, ¬ StandsAt s t part i := fun hnone => hnone i hleast.1
      have hfirst : StandsAt s t part 0 ↔ Number.ofNat i = 0 := by
        constructor
        · intro hzero
          rw [Nat.le_zero.mp (hleast.2 hzero), Number.ofNat_zero]
        · intro hzero
          have hi : i = 0 :=
            Number.ofNat_injective hexact (Nat.zero_le _) (hzero.trans Number.ofNat_zero.symm)
          exact hi ▸ hleast.1
      exact ⟨Number.ofNat i, true, _, {
        indexOf := hindex
        includes := hincludes
        startsWith := rfl
        least := fun hj => congrArg Number.ofNat (hleast.unique hj)
        absent := iff_of_false (ofNat_ne_neg_one hexact) hsome
        excluded := iff_of_false Bool.noConfusion hsome
        first := hstarts.trans hfirst }⟩

theorem exists_character {i : ℕ} (hi : i < t.length) : ∃ c, Character s t i c := by
  have hexact : i < 2 ^ 53 := hi.trans_le h
  rw [← String.length_toList] at hi
  have hsize : i < UInt64.size := hexact.trans (by decide)
  have hsingle (c : Char) : String.ofList [c] = c.toString := rfl
  refine ⟨t.toList[i].toString, ?charAt, ?index, ?slice, s.arrays.size,
    s.withArray (t.toList.map fun c => Value.string c.toString).toArray, ?split, ?piece⟩
  case charAt =>
    have hrun : StringMethod.charAt.run t [.number (Number.ofNat i)] s =
        .ok (.string (charText t.toList (Number.wholePart (Number.ofNat i)))) s := rfl
    rw [hrun, Number.wholePart_ofNat hexact.le, charText, if_neg (by omega), Int.toNat_natCast,
      List.getElem?_eq_getElem hi]
    rfl
  case index =>
    have hrun : readAt (.string t) (.number (Number.ofNat i)) s =
        .ok (characterAt t (Number.text (Number.ofNat i))) s := rfl
    rw [hrun, Number.text_ofNat hexact, characterAt, if_neg (natText_ne_length i),
      arrayIndex?_eq_some_iff.mpr ⟨hsize, rfl⟩, Option.bind_some, List.getElem?_eq_getElem hi]
  case slice =>
    rw [run_slice_ofNat s h, List.extract_eq_take_drop, Nat.add_sub_cancel_left,
      List.drop_eq_getElem_cons hi, List.take_succ_cons, List.take_zero, hsingle]
  case split =>
    have hrun : StringMethod.split.run t [.string ""] s =
        newArray ((t.toList.map ([·])).map fun piece => Value.string (String.ofList piece)).toArray s :=
      rfl
    rw [hrun, List.map_map]
    rfl
  case piece =>
    rw [Store.items_withArray_size]
    simp [hi]

/-- **Places in strings agree**, as long as they are exact as numbers: searching and slicing count
alike, and so do all ways to come to one character. -/
theorem places_agree : (∀ part, ∃ x found starts, Search s t part x found starts) ∧
    ∀ i < t.length, ∃ c, Character s t i c :=
  ⟨exists_search s h, fun _ => exists_character s h⟩

end

theorem places_agree_emoji : "aé😀b".length ≤ 2 ^ 53 ∧
    (∃ x found starts, Search Store.initial "aé😀b" "😀" x found starts) ∧
      ∃ c, Character Store.initial "aé😀b" 2 c :=
  have h : "aé😀b".length ≤ 2 ^ 53 := by decide
  ⟨h, (places_agree Store.initial h).1 "😀", (places_agree Store.initial h).2 2 (by decide)⟩

end Stencil.Script
