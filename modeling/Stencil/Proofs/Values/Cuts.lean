import Stencil.Proofs.Values.Slices
import Mathlib.Order.Nat

/-!
# Values — strings that are split

A separator that is not empty cuts a text where it stands: at its first place, then at the first behind
this one, and so on (`Cuts`).  The places never overlap, also if the separator overlaps itself.

* `Cuts.unique`, `exists_cuts`: a separator cuts a text at exactly one list of places.
* `split_of_cuts`: splitting gives what lies between them (`between`).
* `intercalate_between`, `not_infix_of_mem_between`, `length_between`: what lies between them is the text
  again with the separators back in, none of it has the separator in it, and there is one piece more than
  there are places.
* `split_join`: a string that is split and joined is itself.
-/

namespace Stencil.Text
variable {sep cs : List Char} {start : ℕ} {places : List ℕ}

/-! ### Places -/

/-- **The places where a separator cuts a text** from a start on: the first where it stands, and then
those from the end of this one on. -/
inductive Cuts (sep cs : List Char) : ℕ → List ℕ → Prop where
  | none {start : ℕ} (h : ∀ i, start ≤ i → ¬ sep <+: cs.drop i) : Cuts sep cs start []
  | next {start i : ℕ} {places : List ℕ} (h : IsLeast {j | start ≤ j ∧ sep <+: cs.drop j} i)
      (rest : Cuts sep cs (i + sep.length) places) : Cuts sep cs start (i :: places)

theorem Cuts.unique {others : List ℕ} (h : Cuts sep cs start places)
    (h' : Cuts sep cs start others) : places = others := by
  induction h generalizing others with
  | none hnone =>
      cases h' with
      | none => rfl
      | next hleast => exact absurd hleast.1.2 (hnone _ hleast.1.1)
  | next hleast _ ih =>
      cases h' with
      | none hnone => exact absurd hleast.1.2 (hnone _ hleast.1.1)
      | next hleast' hrest =>
          obtain rfl := hleast.unique hleast'
          rw [ih hrest]

/-- A separator that stands at a place ends within the text. -/
theorem add_length_le {i : ℕ} (hsep : sep ≠ []) (h : sep <+: cs.drop i) :
    i + sep.length ≤ cs.length := by
  have hlength := h.length_le
  have hpos := List.length_pos_iff.mpr hsep
  rw [List.length_drop] at hlength
  omega

theorem exists_cuts (hsep : sep ≠ []) (cs : List Char) (start : ℕ) :
    ∃ places, Cuts sep cs start places := by
  classical
  have hpos := List.length_pos_iff.mpr hsep
  by_cases h : ∃ i, start ≤ i ∧ sep <+: cs.drop i
  · have hfirst := Nat.isLeast_find h
    obtain ⟨places, hplaces⟩ := exists_cuts hsep cs (Nat.find h + sep.length)
    exact ⟨_, .next hfirst hplaces⟩
  · exact ⟨[], .none fun i hi hstands => h ⟨i, hi, hstands⟩⟩
termination_by cs.length - start
decreasing_by
  have hle := add_length_le hsep (Nat.find_spec h).2
  have hstart := (Nat.find_spec h).1
  omega

/-! ### Pieces -/

/-- What lies between separators at places from a start on. -/
def between (sep cs : List Char) (start : ℕ) : List ℕ → List (List Char)
  | [] => [cs.drop start]
  | i :: places => cs.extract start i :: between sep cs (i + sep.length) places

theorem between_ne_nil (sep cs : List Char) (start : ℕ) (places : List ℕ) :
    between sep cs start places ≠ [] := by
  cases places <;> exact List.cons_ne_nil _ _

theorem length_between (sep cs : List Char) (start : ℕ) (places : List ℕ) :
    (between sep cs start places).length = places.length + 1 := by
  induction places generalizing start with
  | nil => rfl
  | cons i places ih => rw [between, List.length_cons, ih, List.length_cons]

theorem intercalate_between (h : Cuts sep cs start places) :
    sep.intercalate (between sep cs start places) = cs.drop start := by
  induction h with
  | none => rw [between, List.intercalate_singleton]
  | @next start i places hleast _ ih =>
      obtain ⟨⟨hstart, hstands⟩, -⟩ := hleast
      have hsep : (cs.drop i).take sep.length = sep := (List.prefix_iff_eq_take.mp hstands).symm
      have hbehind : (cs.drop i).drop sep.length = cs.drop (i + sep.length) := List.drop_drop
      have hat : (cs.drop start).drop (i - start) = cs.drop i := by
        rw [List.drop_drop, Nat.add_sub_cancel' hstart]
      calc sep.intercalate (between sep cs start (i :: places))
          = (cs.drop start).take (i - start) ++ (sep ++ cs.drop (i + sep.length)) := by
            rw [between, List.intercalate_cons_of_ne_nil (between_ne_nil _ _ _ _), ih,
              List.extract_eq_take_drop, List.append_assoc]
        _ = (cs.drop start).take (i - start) ++ cs.drop i := by
            rw [← hbehind]
            nth_rewrite 1 [← hsep]
            rw [List.take_append_drop]
        _ = cs.drop start := by rw [← hat, List.take_append_drop]

/-- What has a part in it has the part at a place. -/
theorem exists_drop_of_infix {part : List Char} (h : part <:+: cs) : ∃ k, part <+: cs.drop k := by
  obtain ⟨before, behind, rfl⟩ := h
  exact ⟨before.length, behind, by rw [List.append_assoc, List.drop_left]⟩

theorem not_infix_of_mem_between (hsep : sep ≠ []) (h : Cuts sep cs start places) :
    ∀ piece ∈ between sep cs start places, ¬ sep <:+: piece := by
  induction h with
  | none hnone =>
      intro piece hpiece hin
      obtain rfl := List.mem_singleton.mp hpiece
      obtain ⟨k, hk⟩ := exists_drop_of_infix hin
      rw [List.drop_drop] at hk
      exact hnone _ (Nat.le_add_right _ k) hk
  | @next start i places hleast _ ih =>
      intro piece hpiece hin
      rcases List.mem_cons.mp hpiece with rfl | hpiece
      · obtain ⟨k, hk⟩ := exists_drop_of_infix hin
        -- One that stands in the piece would end before the first one begins.
        have hend := add_length_le hsep hk
        rw [List.extract_eq_take_drop, List.drop_take, List.drop_drop] at hk
        have hfirst := hleast.2 ⟨Nat.le_add_right start k, hk.trans (List.take_prefix _ _)⟩
        have hpos := List.length_pos_iff.mpr hsep
        rw [List.extract_eq_take_drop, List.length_take] at hend
        omega
      · exact ih piece hpiece hin

/-! ### Splitting -/

theorem cut_skip (skip : ℕ) (piece cs : List Char) :
    cut sep skip piece cs = cut sep 0 piece (cs.drop skip) := by
  induction cs generalizing skip with
  | nil => rw [List.drop_nil, cut, cut]
  | cons c rest ih =>
      cases skip with
      | zero => rfl
      | succ skip => rw [cut, ih, List.drop_succ_cons]

/-- Where the separator does not stand, a character goes to the piece begun. -/
theorem cut_cons (piece : List Char) {c : Char} {rest : List Char} (h : ¬ sep <+: c :: rest) :
    cut sep 0 piece (c :: rest) = cut sep 0 (c :: piece) rest := by
  rw [cut, if_neg (List.isPrefixOf_iff_prefix.not.mpr h)]

theorem cut_of_forall (piece : List Char) (h : ∀ i, ¬ sep <+: cs.drop i) :
    cut sep 0 piece cs = [piece.reverse ++ cs] := by
  induction cs generalizing piece with
  | nil => rw [cut, List.append_nil]
  | cons c rest ih =>
      rw [cut_cons piece (h 0), ih (c :: piece) fun i => h (i + 1), List.reverse_cons,
        List.append_assoc, List.singleton_append]

theorem cut_of_isLeast (hsep : sep ≠ []) (piece : List Char) {i : ℕ}
    (h : IsLeast {j | sep <+: cs.drop j} i) :
    cut sep 0 piece cs =
      (piece.reverse ++ cs.take i) :: cut sep 0 [] (cs.drop (i + sep.length)) := by
  induction i generalizing cs piece with
  | zero =>
      obtain ⟨behind, rfl⟩ : sep <+: cs := h.1
      obtain ⟨c, rest, rfl⟩ := List.exists_cons_of_ne_nil hsep
      have hstands : ((c :: rest).isPrefixOf (c :: rest ++ behind)) = true :=
        List.isPrefixOf_iff_prefix.mpr (List.prefix_append _ _)
      rw [List.cons_append] at hstands ⊢
      rw [cut, if_pos hstands, cut_skip, List.take_zero, List.append_nil, Nat.zero_add,
        List.length_cons, List.drop_succ_cons, Nat.add_sub_cancel]
  | succ i ih =>
      have hnot : ¬ sep <+: cs := by
        intro hstands
        have hle : i + 1 ≤ 0 := h.2 hstands
        omega
      cases cs with
      | nil => exact absurd (List.prefix_nil.mp (List.drop_nil ▸ h.1)) hsep
      | cons c rest =>
          have hrest : IsLeast {j | sep <+: rest.drop j} i := by
            refine ⟨h.1, fun j hj => ?_⟩
            have hle : i + 1 ≤ j + 1 := h.2 hj
            omega
          rw [cut_cons piece hnot, ih (c :: piece) hrest, List.reverse_cons, List.append_assoc,
            List.singleton_append, List.take_succ_cons, Nat.succ_add, List.drop_succ_cons]

theorem cut_of_cuts (hsep : sep ≠ []) (h : Cuts sep cs start places) :
    cut sep 0 [] (cs.drop start) = between sep cs start places := by
  induction h with
  | @none start hnone =>
      refine cut_of_forall [] fun i => ?_
      rw [List.drop_drop]
      exact hnone _ (Nat.le_add_right start i)
  | @next start i places hleast _ ih =>
      obtain ⟨⟨hstart, hstands⟩, hlower⟩ := hleast
      have hfrom : IsLeast {j | sep <+: (cs.drop start).drop j} (i - start) := by
        simp only [List.drop_drop]
        refine ⟨?_, fun j hj => ?_⟩
        · rwa [← Nat.add_sub_cancel' hstart] at hstands
        · have hle : i ≤ start + j := hlower ⟨Nat.le_add_right start j, hj⟩
          omega
      have hbehind : start + (i - start + sep.length) = i + sep.length := by omega
      rw [cut_of_isLeast hsep [] hfrom, List.reverse_nil, List.nil_append, List.drop_drop, hbehind, ih,
        between, List.extract_eq_take_drop]

/-- **Splitting gives what lies between the places** where the separator cuts. -/
theorem split_of_cuts (hsep : sep ≠ []) (h : Cuts sep cs 0 places) :
    split sep cs = between sep cs 0 places := by
  rw [split, if_neg (List.isEmpty_iff.not.mpr hsep)]
  exact cut_of_cuts hsep h

example : split ['a', 'a'] ['a', 'a', 'a', 'a', 'a'] = [[], [], ['a']] := by decide

/-- An empty separator cuts between all characters. -/
theorem intercalate_characters (cs : List Char) : [].intercalate (cs.map ([·])) = cs := by
  induction cs with
  | nil => rfl
  | cons c rest ih =>
      cases rest with
      | nil => rfl
      | cons d rest =>
          rw [List.map_cons, List.intercalate_cons_of_ne_nil (by simp), ih,
            List.append_nil, List.singleton_append]

/-- What is split is itself with the separators back in, also if the separator is empty. -/
theorem intercalate_split (sep cs : List Char) : sep.intercalate (split sep cs) = cs := by
  rcases eq_or_ne sep [] with rfl | hsep
  · rw [split, List.isEmpty_nil, if_pos rfl, intercalate_characters]
  · obtain ⟨places, h⟩ := exists_cuts hsep cs 0
    rw [split_of_cuts hsep h, intercalate_between h, List.drop_zero]

end Stencil.Text

namespace Stencil.Script

/-! ### Methods -/

theorem map_toList_ofList (pieces : List (List Char)) :
    (pieces.map String.ofList).map String.toList = pieces := by
  rw [List.map_map]
  exact (List.map_congr_left fun piece _ => String.toList_ofList).trans (List.map_id pieces)

/-- Joining strings puts the separator between them. -/
theorem joined_strings (s : Store) (pieces : List String) (sep : String) :
    s.joined (pieces.map Value.string).toArray sep = sep.intercalate pieces := by
  rw [Store.joined, List.map_map]
  exact congrArg sep.intercalate (List.map_id pieces)

/-- **What a separator makes of a string**: pieces that are the string again with separators between
them.  If the separator is not empty no piece has it in it, and there is one piece more than there are
places where it cuts. -/
structure Pieces (sep t : String) (pieces : List String) : Prop where
  joined : sep.intercalate pieces = t
  whole (hsep : sep ≠ "") {piece : String} (hpiece : piece ∈ pieces) :
    ¬ sep.toList <:+: piece.toList
  places (hsep : sep ≠ "") : ∃! places, Text.Cuts sep.toList t.toList 0 places
  count (hsep : sep ≠ "") {places : List ℕ} (h : Text.Cuts sep.toList t.toList 0 places) :
    pieces.length = places.length + 1

theorem pieces_split (sep t : String) :
    Pieces sep t ((Text.split sep.toList t.toList).map String.ofList) := by
  have hne (hsep : sep ≠ "") : sep.toList ≠ [] := fun h => hsep (String.toList_eq_nil_iff.mp h)
  refine ⟨?joined, fun hsep piece hpiece => ?whole, fun hsep => ?places, fun hsep places h => ?count⟩
  case joined =>
    rw [← String.toList_inj, String.toList_intercalate, map_toList_ofList, Text.intercalate_split]
  case whole =>
    obtain ⟨cs, hcs, rfl⟩ := List.mem_map.mp hpiece
    obtain ⟨places, h⟩ := Text.exists_cuts (hne hsep) t.toList 0
    rw [Text.split_of_cuts (hne hsep) h] at hcs
    rw [String.toList_ofList]
    exact Text.not_infix_of_mem_between (hne hsep) h cs hcs
  case places =>
    obtain ⟨places, h⟩ := Text.exists_cuts (hne hsep) t.toList 0
    exact ⟨places, h, fun others h' => h'.unique h⟩
  case count =>
    rw [List.length_map, Text.split_of_cuts (hne hsep) h, Text.length_between]

/-- **A string that is split and joined is itself**, whatever the separator: also if it is empty or
overlaps itself. -/
theorem split_join (n : ℕ) (described described' : String) (s : Store) (sep t : String) :
    ∃ a u pieces,
      callMethod (n + 1) described (.string t) "split" [.string sep] s = .ok (.array a) u ∧
        u.items a = (pieces.map Value.string).toArray ∧ Pieces sep t pieces ∧
        callMethod (n + 1) described' (.array a) "join" [.string sep] u = .ok (.string t) u := by
  obtain ⟨pieces, hpieces⟩ : ∃ pieces, pieces = (Text.split sep.toList t.toList).map String.ofList :=
    ⟨_, rfl⟩
  have hcut : Pieces sep t pieces := hpieces ▸ pieces_split sep t
  have hsplit : callMethod (n + 1) described (.string t) "split" [.string sep] s =
      newArray (pieces.map Value.string).toArray s := by
    rw [hpieces, List.map_map]
    rfl
  obtain ⟨u, hu⟩ : ∃ u, u = s.withArray (pieces.map Value.string).toArray := ⟨_, rfl⟩
  have hitems : u.items s.arrays.size = (pieces.map Value.string).toArray := by
    rw [hu, Store.items_withArray_size]
  have hjoin : callMethod (n + 1) described' (.array s.arrays.size) "join" [.string sep] u =
      .ok (.string (u.joined (u.items s.arrays.size) sep)) u := rfl
  refine ⟨s.arrays.size, u, pieces, ?_, hitems, hcut, ?_⟩
  · rw [hsplit, hu]
    rfl
  · rw [hjoin, hitems, joined_strings, hcut.joined]

end Stencil.Script
