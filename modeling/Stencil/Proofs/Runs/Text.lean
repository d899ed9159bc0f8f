import Mathlib.Data.Finset.Card
import Mathlib.Data.Finset.Range
import Mathlib.Data.Fintype.Card
import Mathlib.Data.List.Forall2
import Mathlib.Data.Set.Finite.Basic
import Mathlib.Logic.Relation
import Mathlib.Order.WellFounded
import Stencil.Script.Conversion

/-!
# Runs — the text of a value

`Store.text` writes arrays to a depth that depends on how many arrays there are.  Any depth that is
enough gives the same text, and a depth that is not enough for as many arrays is never enough.

* `Store.textWithin?_mono`: a text that is found to one depth is found to any greater one.
* `Store.text_eq`: the text does not depend on the depth, once it is great enough.
* `Store.isSome_textWithin?_of_acyclic`: a value has a text if no array in it contains itself.
-/

namespace Stencil.Script
namespace Store

variable {s : Store}

/-- The text of an element, if the depth is enough. -/
def elementWithin? (s : Store) (depth : Nat) (v : Value) : Option String :=
  if v.isNullish then some "" else s.textWithin? depth v

theorem textWithin?_array (depth : Nat) (a : Ref) : s.textWithin? (depth + 1) (.array a) =
    ((s.items a).toList.mapM (s.elementWithin? depth)).map ",".intercalate := by
  rw [textWithin?]
  rfl

theorem textWithin?_of_not_array {v : Value} (h : ∀ a, v ≠ .array a) (depth depth' : Nat) :
    s.textWithin? depth v = s.textWithin? depth' v := by
  cases v with
  | array a => exact absurd rfl (h a)
  | _ => cases depth <;> cases depth' <;> rfl

/-- Lists of elements that come to the same one by one. -/
theorem mapM_eq_of_forall₂ {α β γ : Type} {R : α → β → Prop} {f : α → Option γ} {g : β → Option γ}
    (h : ∀ x y, R x y → f x = g y) :
    ∀ {xs : List α} {ys : List β}, List.Forall₂ R xs ys → xs.mapM f = ys.mapM g
  | _, _, .nil => rfl
  | _, _, .cons hxy hxs => by
      rw [List.mapM_cons, List.mapM_cons, h _ _ hxy, mapM_eq_of_forall₂ h hxs]

/-! ### Greater depths -/

theorem mapM_eq_some_of_imp {α β : Type} {f g : α → Option β} (h : ∀ x y, f x = some y → g x = some y) :
    ∀ {l : List α} {ys : List β}, l.mapM f = some ys → l.mapM g = some ys
  | [], _, e => e
  | x :: l, ys, e => by
      simp only [List.mapM_cons, Option.pure_def, Option.bind_eq_bind, Option.bind_eq_some_iff] at e ⊢
      obtain ⟨y, hy, zs, hz, e⟩ := e
      exact ⟨y, h x y hy, zs, mapM_eq_some_of_imp h hz, e⟩

/-- **Greater depths find what smaller ones do.** -/
theorem textWithin?_succ {depth : Nat} {v : Value} {t : String}
    (h : s.textWithin? depth v = some t) : s.textWithin? (depth + 1) v = some t := by
  induction depth generalizing v t with
  | zero =>
      cases v with
      | array a => cases h
      | _ => exact h
  | succ depth ih =>
      cases v with
      | array a =>
          rw [textWithin?_array] at h ⊢
          obtain ⟨ts, hts, rfl⟩ := Option.map_eq_some_iff.mp h
          refine Option.map_eq_some_iff.mpr ⟨ts, mapM_eq_some_of_imp (fun w u hw => ?_) hts, rfl⟩
          rw [elementWithin?] at hw ⊢
          split
          · rename_i hn
            rwa [if_pos hn] at hw
          · rename_i hn
            rw [if_neg hn] at hw
            exact ih hw
      | _ => exact h

theorem textWithin?_mono {depth depth' : Nat} (hle : depth ≤ depth') {v : Value} {t : String}
    (h : s.textWithin? depth v = some t) : s.textWithin? depth' v = some t := by
  induction hle with
  | refl => exact h
  | step _ ih => exact textWithin?_succ ih

/-! ### Depths that are enough -/

/-- Whether an array has a text to some depth. -/
def Reached (s : Store) (depth : Nat) (a : Ref) : Prop :=
  (s.textWithin? depth (.array a)).isSome

/-- Whether one step deeper finds no more arrays. -/
def Settled (s : Store) (depth : Nat) : Prop :=
  ∀ a, s.Reached (depth + 1) a → s.Reached depth a

theorem isSome_mapM {α β : Type} (f : α → Option β) :
    ∀ l : List α, (l.mapM f).isSome ↔ ∀ x ∈ l, (f x).isSome
  | [] => by simp
  | x :: l => by
      have ih := isSome_mapM f l
      rw [List.mapM_cons]
      cases hx : f x with
      | none => simp [hx]
      | some y =>
          cases hl : l.mapM f with
          | none =>
              rw [hl] at ih
              simp [hx, ← ih]
          | some ys =>
              rw [hl] at ih
              simp only [Option.isSome_some, true_iff] at ih
              simpa [hx] using ih

theorem reached_succ {depth : Nat} {a : Ref} : s.Reached (depth + 1) a ↔
    ∀ v ∈ (s.items a).toList, (s.elementWithin? depth v).isSome := by
  rw [Reached, textWithin?_array, Option.isSome_map, isSome_mapM]

theorem Settled.succ {depth : Nat} (h : s.Settled depth) : s.Settled (depth + 1) := by
  intro a ha
  rw [reached_succ] at ha ⊢
  intro v hv
  have hsome := ha v hv
  rw [elementWithin?] at hsome ⊢
  split
  · rfl
  · rename_i hn
    rw [if_neg hn] at hsome
    cases v with
    | array b => exact h b hsome
    | _ => rwa [textWithin?_of_not_array (by simp)] at hsome

theorem Settled.mono {depth depth' : Nat} (h : s.Settled depth) (hle : depth ≤ depth') :
    s.Settled depth' := by
  induction hle with
  | refl => exact h
  | step _ ih => exact ih.succ

theorem Settled.reached {depth depth' : Nat} (h : s.Settled depth) (hle : depth ≤ depth') {a : Ref}
    (ha : s.Reached depth' a) : s.Reached depth a := by
  induction hle with
  | refl => exact ha
  | step hle ih => exact ih (h.mono hle a ha)

theorem reached_of_size_le {a : Ref} (h : s.arrays.size ≤ a) (depth : Nat) :
    s.Reached (depth + 1) a := by
  rw [reached_succ]
  simp [items, h]

open Classical in
/-- The arrays that have a text to some depth. -/
noncomputable def reachedArrays (s : Store) (depth : Nat) : Finset Ref :=
  (Finset.range s.arrays.size).filter (s.Reached depth)

theorem card_lt_of_not_settled {depth : Nat} (h : ¬ s.Settled (depth + 1)) :
    (s.reachedArrays (depth + 1)).card < (s.reachedArrays (depth + 2)).card := by
  classical
  simp only [Settled, not_forall] at h
  obtain ⟨a, ha, hno⟩ := h
  have hlt : a < s.arrays.size :=
    Nat.lt_of_not_le fun hle => hno (reached_of_size_le hle depth)
  refine Finset.card_lt_card (Finset.ssubset_iff_of_subset ?_ |>.mpr ⟨a, ?_, ?_⟩)
  · intro b hb
    obtain ⟨hlt, hb⟩ := Finset.mem_filter.mp hb
    obtain ⟨t, ht⟩ := Option.isSome_iff_exists.mp hb
    exact Finset.mem_filter.mpr ⟨hlt, Option.isSome_iff_exists.mpr ⟨t, textWithin?_succ ht⟩⟩
  · exact Finset.mem_filter.mpr ⟨Finset.mem_range.mpr hlt, ha⟩
  · exact fun hm => hno (Finset.mem_filter.mp hm).2

/-- Each step deeper finds one more array, until no step does. -/
theorem settled_or_lt_card (depth : Nat) :
    s.Settled (depth + 1) ∨ depth < (s.reachedArrays (depth + 2)).card := by
  induction depth with
  | zero =>
      refine or_iff_not_imp_left.mpr fun h => ?_
      exact Nat.lt_of_le_of_lt (Nat.zero_le _) (card_lt_of_not_settled h)
  | succ depth ih =>
      refine or_iff_not_imp_left.mpr fun h => ?_
      have hlt := ih.resolve_left fun hs => h hs.succ
      exact Nat.lt_of_le_of_lt hlt (card_lt_of_not_settled h)

/-- **As many steps as there are arrays are enough**, and one for the array that is written. -/
theorem settled_size (s : Store) : s.Settled (s.arrays.size + 1) := by
  refine (settled_or_lt_card s.arrays.size).resolve_right (Nat.not_lt_of_le ?_)
  classical
  calc (s.reachedArrays (s.arrays.size + 2)).card
      ≤ (Finset.range s.arrays.size).card := Finset.card_filter_le _ _
    _ = s.arrays.size := Finset.card_range _

/-- **The text of a value does not depend on the depth**, once it is great enough. -/
theorem text_eq {depth : Nat} (h : s.arrays.size + 1 ≤ depth) (v : Value) :
    s.text v = (s.textWithin? depth v).getD "" := by
  rw [text]
  cases hv : s.textWithin? (s.arrays.size + 1) v with
  | some t => rw [textWithin?_mono h hv]
  | none =>
      cases v with
      | array a =>
          cases ha : s.textWithin? depth (.array a) with
          | none => rfl
          | some t =>
              have hr := s.settled_size.reached h (a := a) (Option.isSome_iff_exists.mpr ⟨t, ha⟩)
              rw [Reached, hv] at hr
              cases hr
      | _ => cases hv

/-! ### Arrays that do not contain themselves -/

/-- Whether an array has another one among its elements. -/
def Holds (s : Store) (a b : Ref) : Prop :=
  .array b ∈ (s.items a).toList

/-- **No array in a value contains itself**, however many steps away. -/
def Acyclic (s : Store) (v : Value) : Prop :=
  ∀ a b, v = .array a → Relation.ReflTransGen s.Holds a b → ¬ Relation.TransGen s.Holds b b

/-- An array without a text has another one among its elements. -/
theorem exists_holds_of_not_reached {a : Ref} (h : ¬ s.Reached (s.arrays.size + 1) a) :
    a < s.arrays.size ∧ ∃ b, s.Holds a b ∧ ¬ s.Reached (s.arrays.size + 1) b := by
  refine ⟨Nat.lt_of_not_le fun hle => h (reached_of_size_le hle _), ?_⟩
  have hno : ¬ s.Reached (s.arrays.size + 1 + 1) a := fun hr => h (s.settled_size a hr)
  rw [reached_succ] at hno
  push Not at hno
  obtain ⟨v, hv, hnone⟩ := hno
  rw [elementWithin?] at hnone
  split at hnone
  · exact absurd rfl hnone
  · cases v with
    | array b => exact ⟨b, hv, hnone⟩
    | _ => exact absurd rfl hnone

/-- The arrays without a text that are in an array, itself among them. -/
def unreached (s : Store) (a : Ref) : Set Ref :=
  {b | Relation.ReflTransGen s.Holds a b ∧ ¬ s.Reached (s.arrays.size + 1) b}

theorem finite_unreached (s : Store) (a : Ref) : (s.unreached a).Finite :=
  (Finset.range s.arrays.size).finite_toSet.subset fun _ hb =>
    Finset.mem_coe.mpr (Finset.mem_range.mpr (exists_holds_of_not_reached hb.2).1)

theorem reached_of_acyclic {a : Ref} (h : s.Acyclic (.array a)) :
    s.Reached (s.arrays.size + 1) a := by
  by_contra hno
  -- going from array to array never comes back, and so it would end in one of them
  have hfinite : Finite (s.unreached a) := s.finite_unreached a
  have htrans : IsTrans (s.unreached a) (fun x y => Relation.TransGen s.Holds y.1 x.1) :=
    ⟨fun _ _ _ hxy hyz => hyz.trans hxy⟩
  have hirrefl : Std.Irrefl fun x y : s.unreached a => Relation.TransGen s.Holds y.1 x.1 :=
    ⟨fun x => h a x.1 rfl x.2.1⟩
  obtain ⟨m, -, hlast⟩ := (Finite.wellFounded_of_trans_of_irrefl fun x y : s.unreached a =>
    Relation.TransGen s.Holds y.1 x.1).has_min Set.univ ⟨⟨a, .refl, hno⟩, trivial⟩
  obtain ⟨b, hb, hnob⟩ := (exists_holds_of_not_reached m.2.2).2
  exact hlast ⟨b, m.2.1.tail hb, hnob⟩ trivial (.single hb)

/-- **A value has a text** if no array in it contains itself. -/
theorem isSome_textWithin?_of_acyclic {v : Value} (h : s.Acyclic v) :
    (s.textWithin? (s.arrays.size + 1) v).isSome := by
  cases v with
  | array a => exact reached_of_acyclic h
  | _ => rfl

end Store
end Stencil.Script
