import Stencil.Proofs.Runs.Helper
import Stencil.Proofs.Twin.Import
import Stencil.Proofs.Twin.Names

/-!
# Twin — two objects of data

Two objects that share the values of some members.  In the stores that their values are made in, the
value of a shared member lies at some distance from the start of each, `memberOffset`; the members
lie apart (`memberOffset_apart`).  `dataLink` links what the values of shared members are made of,
and what is made later.

* `linked_importDocument`: the stores are linked, whatever the other members are.
* `same_member`: the shared members have the same values.
-/

namespace Stencil

namespace Json
open Script

/-- The value of the last member with a key, which is the one that counts. -/
def lastValue? {α : Type} : List (String × α) → String → Option α
  | [], _ => none
  | (k, x) :: rest, key => (lastValue? rest key).or (if k = key then some x else none)

theorem lastValue?_eq_none {α : Type} {members : List (String × α)} {key : String} :
    lastValue? members key = none ↔ key ∉ members.map Prod.fst := by
  induction members with
  | nil => simp [lastValue?]
  | cons head rest ih =>
      obtain ⟨k, x⟩ := head
      rw [lastValue?, List.map_cons, List.mem_cons, not_or, Option.or_eq_none_iff, ih]
      simp [and_comm, eq_comm]

/-- How many places of a part are taken before the value of the last member with a key. -/
def memberOffset (part : Part) : List (String × Document) → String → Nat
  | [], _ => 0
  | (_, item) :: rest, key =>
    match lastValue? rest key with
    | some _ => item.count part + memberOffset part rest key
    | none => 0

section
variable (part : Part)

theorem memberOffset_add_le : ∀ {members : List (String × Document)} {key : String}
    {value : Document}, lastValue? members key = some value →
    memberOffset part members key + value.count part ≤ countMembers part members
  | (k, item) :: rest, key, value, h => by
      rw [lastValue?] at h
      rw [memberOffset, countMembers]
      cases hr : lastValue? rest key with
      | some w =>
          rw [hr] at h
          cases h
          have := memberOffset_add_le hr
          dsimp only
          omega
      | none =>
          rw [hr, Option.none_or] at h
          split at h
          · cases h
            dsimp only
            omega
          · cases h

/-- **The values of members lie apart.** -/
theorem memberOffset_apart : ∀ {members : List (String × Document)} {n m : String}
    {v w : Document}, n ≠ m → lastValue? members n = some v → lastValue? members m = some w →
    memberOffset part members n + v.count part ≤ memberOffset part members m ∨
      memberOffset part members m + w.count part ≤ memberOffset part members n
  | (k, item) :: rest, n, m, v, w, hne, hv, hw => by
      rw [lastValue?] at hv hw
      rw [memberOffset, memberOffset]
      -- the first member counts only if its name does not come again, and only one of the two is its name
      cases hn : lastValue? rest n with
      | some v' =>
          rw [hn] at hv
          cases hv
          cases hm : lastValue? rest m with
          | some w' =>
              rw [hm] at hw
              cases hw
              have := memberOffset_apart hne hn hm
              dsimp only
              omega
          | none =>
              rw [hm, Option.none_or] at hw
              split at hw
              · cases hw
                dsimp only
                omega
              · cases hw
      | none =>
          rw [hn, Option.none_or] at hv
          split at hv
          · cases hv
            cases hm : lastValue? rest m with
            | some w' => dsimp only; omega
            | none =>
                rw [hm, Option.none_or] at hw
                split at hw
                · rename_i hk hk'
                  exact absurd (hk.symm.trans hk') hne
                · cases hw
          · cases hv

end

end Json

namespace Script
open Json

/-! ### Members in a store -/

theorem Fields.get?_put (fields : Fields) (key : String) (value : Value) (word : String) :
    (fields.put key value).get? word = if key = word then some value else fields.get? word := by
  by_cases hw : key = word
  · rw [if_pos hw, ← hw, get?_put_self]
  rw [if_neg hw]
  have other : (word == key) = false := beq_eq_false_iff_ne.mpr fun h => hw h.symm
  induction fields with
  | nil => rw [put, get?, List.lookup_cons, other]; rfl
  | cons head rest ih =>
      obtain ⟨k, v⟩ := head
      simp only [get?] at ih ⊢
      rw [put]
      split
      · rename_i hk
        subst hk
        rw [List.lookup_cons, List.lookup_cons, other]
      · rw [List.lookup_cons, List.lookup_cons, ih]

/-- Of the fields that are written, the last with a key counts. -/
theorem get?_writtenFields (members : List (String × Value)) (key : String) :
    (writtenFields members).get? key = lastValue? members key := by
  have onto : ∀ all : Fields, (members.foldl (fun (all : Fields) p => all.put p.1 p.2)
      all).get? key = (lastValue? members key).or (all.get? key) := by
    induction members with
    | nil => exact fun _ => rfl
    | cons head rest ih =>
        obtain ⟨k, v⟩ := head
        intro all
        rw [List.foldl_cons, ih, Fields.get?_put, lastValue?, Option.or_assoc]
        split <;> rfl
  rw [writtenFields, onto]
  exact Option.or_none

theorem keys_importMembers : ∀ {members : List (String × Document)} {s t : Store}
    {fields : List (String × Value)}, importMembers members s = .ok fields t →
    fields.map Prod.fst = members.map Prod.fst
  | [], _, _, _, h => by cases h; rfl
  | (key, item) :: rest, s, _, _, h => by
      obtain ⟨v, t, ht, -⟩ := grown_importDocument item s
      obtain ⟨fields, u, hu, -⟩ := grown_importMembers rest t
      rw [importMembers, run_bind, ht] at h
      dsimp only at h
      rw [run_bind, hu] at h
      cases h
      exact congrArg (key :: ·) (keys_importMembers hu)

/-- **Where the value of a member is made.** -/
theorem importMembers_last : ∀ {members : List (String × Document)} {s t : Store}
    {fields : List (String × Value)}, importMembers members s = .ok fields t →
    ∀ {key : String} {value : Document}, lastValue? members key = some value →
    ∃ u u' v k, importDocument value u = .ok v u' ∧ lastValue? fields key = some v ∧
      (∀ part, u.count part = s.count part + memberOffset part members key) ∧ u'.Grown t k
  | (k, item) :: rest, s, _, _, h, key, value, hv => by
      obtain ⟨v, t, ht, g⟩ := grown_importDocument item s
      obtain ⟨fields, u, hu, g'⟩ := grown_importMembers rest t
      rw [importMembers, run_bind, ht] at h
      dsimp only at h
      rw [run_bind, hu] at h
      cases h
      rw [lastValue?] at hv
      simp only [memberOffset]
      -- the last member of a name is the one that is kept
      cases hr : lastValue? rest key with
      | some w =>
          rw [hr] at hv
          cases hv
          obtain ⟨x, x', v', n, hx, hl, hcount, hg⟩ := importMembers_last hu hr
          refine ⟨x, x', v', n, hx, ?_, fun part => ?_, hg⟩
          · rw [lastValue?, hl]
            rfl
          · rw [hcount, g.count, Nat.add_assoc]
      | none =>
          rw [hr, Option.none_or] at hv
          split at hv
          · rename_i hk
            cases hv
            refine ⟨s, t, v, _, ht, ?_, fun _ => rfl, g'⟩
            have hnone : lastValue? fields key = none := by
              rw [lastValue?_eq_none, keys_importMembers hu]
              exact lastValue?_eq_none.mp hr
            rw [lastValue?, hnone, if_pos hk]
            rfl
          · cases hv

/-! ### The link -/

/-- **The places that correspond**, of a part that starts with some places that are the same: those
and those of the values of shared members, and what comes after the data. -/
inductive Placed (part : Part) (first : Nat) (members members' : List (String × Document)) :
    Nat → Nat → Prop where
  | before {a : Nat} (h : a < first) : Placed part first members members' a a
  | shared {key : String} {value : Document} (h : lastValue? members key = some value)
      (h' : lastValue? members' key = some value) {i : Nat} (hi : i < value.count part) :
      Placed part first members members' (first + memberOffset part members key + i)
        (first + memberOffset part members' key + i)
  | after (i : Nat) : Placed part first members members'
      (first + (Document.object members).count part + i)
      (first + (Document.object members').count part + i)

theorem Placed.unique {part : Part} {first : Nat} {members members' : List (String × Document)}
    {a b a' b' : Nat} (h : Placed part first members members' a b)
    (h' : Placed part first members members' a' b') : a = a' ↔ b = b' := by
  have taken (members : List (String × Document)) :
      countMembers part members ≤ (Document.object members).count part := Nat.le_add_right _ _
  have total := taken members
  have total' := taken members'
  cases h with
  | before ha =>
      cases h' with
      | before _ => rfl
      | shared _ _ _ => omega
      | after _ => omega
  | @shared n v hn hn' i hi =>
      have inside := memberOffset_add_le part hn
      have inside' := memberOffset_add_le part hn'
      cases h' with
      | before _ => omega
      | after _ => omega
      | @shared m w hm hm' j hj =>
          by_cases hnm : n = m
          · subst hnm
            cases hn.symm.trans hm
            omega
          · have apart := memberOffset_apart part hnm hn hm
            have apart' := memberOffset_apart part hnm hn' hm'
            omega
  | after i =>
      cases h' with
      | before _ => omega
      | shared hm hm' _ =>
          have inside := memberOffset_add_le part hm
          have inside' := memberOffset_add_le part hm'
          omega
      | after _ => omega

/-- The link between the stores of two objects of data. -/
def dataLink (hidden : String) (members members' : List (String × Document)) : Link where
  arrays := Placed .arrays (Store.initial.count .arrays) members members'
  objects := Placed .objects (Store.initial.count .objects) members members'
  hidden := hidden
  arrays_iff := Placed.unique
  objects_iff := Placed.unique

namespace Link

variable {K : Link} {s s' : Store}

theorem sameContent_of_le {part : Part} {a b : Ref} (h : s.count part ≤ a)
    (h' : s'.count part ≤ b) :
    K.SameContent part (s.content part a) (s'.content part b) := by
  have past {α : Type} (l : Array α) (d : α) {i : Nat} (hi : l.size ≤ i) : l.getD i d = d := by
    rw [Array.getD_eq_getD_getElem?, Array.getElem?_eq_none hi]
    rfl
  cases part with
  | arrays =>
      show K.SameValues (s.items a).toList (s'.items b).toList
      rw [show s.items a = #[] from past _ _ h, show s'.items b = #[] from past _ _ h']
      exact .nil
  | objects =>
      show List.Forall₂ K.SameField (s.fields a) (s'.fields b)
      rw [show s.fields a = [] from past _ _ h, show s'.fields b = [] from past _ _ h']
      exact .nil

theorem sameContent_initial {part : Part} {a : Ref} (h : a < Store.initial.count part) :
    K.SameContent part (Store.initial.content part a) (Store.initial.content part a) := by
  cases part with
  | arrays => exact absurd h (Nat.not_lt_zero a)
  | objects =>
      obtain rfl : a = 0 := Nat.lt_one_iff.mp h
      show List.Forall₂ K.SameField helperFields helperFields
      refine List.forall₂_same.mpr fun p hp => ⟨rfl, ?_⟩
      simp only [helperFields, List.mem_cons, List.not_mem_nil, or_false] at hp
      rcases hp with rfl | rfl | rfl | rfl | rfl | rfl | rfl | rfl <;> exact .function _

/-- The scopes of two calls bind the same, whatever the hidden name is bound to. -/
theorem sameScopes_bothBound (hhelper : K.objects 0 0) (v v' : Value) :
    K.SameScopes (bothBound K.hidden v) (bothBound K.hidden v') := by
  have provided : ∀ {n w}, (n, w) ∈ globalScope → K.Same w.value w.value := by
    intro n w hm
    simp only [globalScope, List.mem_cons, List.not_mem_nil, or_false, Prod.mk.injEq] at hm
    rcases hm with ⟨-, rfl⟩ | ⟨-, rfl⟩ | ⟨-, rfl⟩ | ⟨-, rfl⟩ | ⟨-, rfl⟩ | ⟨-, rfl⟩ | ⟨-, rfl⟩
    · exact .undefined
    · exact .number _
    · exact .number _
    · exact .function 0
    · exact .function 1
    · exact .function 2
    · exact .object hhelper
  have opened : K.SameScopes #[globalScope, []] #[globalScope, []] := by
    refine ⟨rfl, fun r n _ => ?_⟩
    cases hw : (Scopes.scope #[globalScope, []] r).get? n with
    | none => exact .none
    | some w =>
        refine .some ⟨?_, rfl⟩
        match r, hw with
        | 0, hw =>
            obtain ⟨_, _, hsplit, -⟩ := List.lookup_eq_some_iff.mp hw
            exact provided (hsplit ▸ List.mem_append_right _ List.mem_cons_self)
        | 1, hw => cases hw
        | r + 2, hw => rw [Scopes.scope_of_le (by simp)] at hw; cases hw
  exact (opened.put Scopes.callScope fun h => absurd rfl h).put Scopes.callScope
    fun _ => ⟨.object hhelper, rfl⟩

end Link

/-! ### The stores of the data -/

section
variable {members members' : List (String × Document)} {t t' : Store}
  {fields fields' : List (String × Value)} (h : importMembers members Store.initial = .ok fields t)
  (h' : importMembers members' Store.initial = .ok fields' t') (hidden : String)
include h h'

/-- What is made for a shared member is the same. -/
theorem shared_importMembers {key : String} {value : Document}
    (hv : lastValue? members key = some value) (hv' : lastValue? members' key = some value) :
    ∃ v v', lastValue? fields key = some v ∧ lastValue? fields' key = some v' ∧
      (dataLink hidden members members').Same v v' ∧ ∀ part, ∀ i < value.count part,
        (dataLink hidden members members').SameContent part
          (t.content part (Store.initial.count part + memberOffset part members key + i))
          (t'.content part (Store.initial.count part + memberOffset part members' key + i)) := by
  obtain ⟨u, x, v, k, hu, hl, hcount, hg⟩ := importMembers_last h hv
  obtain ⟨u', x', v', k', hu', hl', hcount', hg'⟩ := importMembers_last h' hv'
  have covers : (dataLink hidden members members').Covers u u' (value.count ·) := by
    intro part i hi
    rw [hcount, hcount']
    cases part with
    | arrays => exact .shared hv hv' hi
    | objects => exact .shared hv hv' hi
  obtain ⟨hs, made⟩ := Link.made_importDocument value hu hu' covers
  refine ⟨v, v', hl, hl', hs, fun part i hi => ?_⟩
  have inside : u.count part + i < x.count part := by
    rw [made.left.count]
    exact Nat.add_lt_add_left hi _
  have inside' : u'.count part + i < x'.count part := by
    rw [made.right.count]
    exact Nat.add_lt_add_left hi _
  have same := made.same part i hi
  rwa [← hg.content part _ inside, ← hg'.content part _ inside', hcount, hcount'] at same

/-- A member that both objects have alike, or neither, has the same value. -/
theorem same_member {key : String} (hk : lastValue? members key = lastValue? members' key) :
    (dataLink hidden members members').Same (((writtenFields fields).get? key).getD .undefined)
      (((writtenFields fields').get? key).getD .undefined) := by
  rw [get?_writtenFields, get?_writtenFields]
  cases hv : lastValue? members key with
  | some value =>
      obtain ⟨v, v', hl, hl', hs, -⟩ := shared_importMembers h h' hidden hv (hk ▸ hv)
      rw [hl, hl']
      exact hs
  | none =>
      have none_of {members fields s t} (h : importMembers members s = .ok fields t)
          (hv : lastValue? members key = none) : lastValue? fields key = none := by
        rw [lastValue?_eq_none, keys_importMembers h]
        exact lastValue?_eq_none.mp hv
      rw [none_of h hv, none_of h' (hk ▸ hv)]
      exact .undefined

theorem sameContent_importMembers (part : Part) {a b : Ref}
    (hab : Placed part (Store.initial.count part) members members' a b) :
    (dataLink hidden members members').SameContent part
      (Store.content { t with objects := t.objects.push (writtenFields fields) } part a)
      (Store.content { t' with objects := t'.objects.push (writtenFields fields') } part b) := by
  have grown := Store.Grown.of_importMembers h
  have grown' := Store.Grown.of_importMembers h'
  have last := Store.Grown.pushObject t (writtenFields fields)
  have last' := Store.Grown.pushObject t' (writtenFields fields')
  have whole := grown.trans last
  have whole' := grown'.trans last'
  cases hab with
  | before ha =>
      rw [whole.content part a ha, whole'.content part a ha]
      exact Link.sameContent_initial ha
  | @shared key value hv hv' i hi =>
      obtain ⟨v, v', -, -, -, same⟩ := shared_importMembers h h' hidden hv hv'
      have inside := memberOffset_add_le part hv
      have inside' := memberOffset_add_le part hv'
      rw [last.content part _ (by rw [grown.count]; omega),
        last'.content part _ (by rw [grown'.count]; omega)]
      exact same part i hi
  | after i =>
      refine Link.sameContent_of_le ?_ ?_
      · rw [whole.count]
        exact Nat.le_add_right _ i
      · rw [whole'.count]
        exact Nat.le_add_right _ i

theorem lt_count_importMembers (part : Part) {a b : Nat}
    (hab : Placed part (Store.initial.count part) members members' a b) :
    a < Store.count { t with objects := t.objects.push (writtenFields fields) } part ↔
      b < Store.count { t' with objects := t'.objects.push (writtenFields fields') } part := by
  have whole := (Store.Grown.of_importMembers h).trans (.pushObject t (writtenFields fields))
  have whole' := (Store.Grown.of_importMembers h').trans (.pushObject t' (writtenFields fields'))
  rw [whole.count, whole'.count]
  cases hab with
  | before ha => omega
  | @shared key value hv hv' i hi =>
      have inside := memberOffset_add_le part hv
      have inside' := memberOffset_add_le part hv'
      omega
  | after i =>
      simp only [Document.count]
      omega

/-- **The stores of two objects of data are linked**, once the data is bound to a name that is
hidden. -/
theorem linked_importMembers (v v' : Value) :
    (dataLink hidden members members').Linked
      (Store.withScopes { t with objects := t.objects.push (writtenFields fields) }
        (bothBound hidden v))
      (Store.withScopes { t' with objects := t'.objects.push (writtenFields fields') }
        (bothBound hidden v')) := by
  have whole := (Store.Grown.of_importMembers h).trans (.pushObject t (writtenFields fields))
  have whole' := (Store.Grown.of_importMembers h').trans (.pushObject t' (writtenFields fields'))
  obtain ⟨-, hfunctions, hdepth⟩ := importDocument_initial (importDocument_object h)
  obtain ⟨-, hfunctions', hdepth'⟩ := importDocument_initial (importDocument_object h')
  have next (part : Part) (i : Nat) : Placed part (Store.initial.count part) members members'
      (Store.count { t with objects := t.objects.push (writtenFields fields) } part + i)
      (Store.count { t' with objects := t'.objects.push (writtenFields fields') } part + i) := by
    rw [whole.count, whole'.count]
    exact .after i
  have helper : (dataLink hidden members members').objects 0 0 := .before Nat.zero_lt_one
  exact {
    items := sameContent_importMembers h h' hidden .arrays
    fields := sameContent_importMembers h h' hidden .objects
    arrays_lt := lt_count_importMembers h h' .arrays
    objects_lt := lt_count_importMembers h h' .objects
    nextArray := next .arrays
    nextObject := next .objects
    functions := hfunctions.trans hfunctions'.symm
    closures := fun d env hm => absurd (hfunctions ▸ hm) no_closure_initial
    scopes := Link.sameScopes_bothBound helper v v'
    depth := hdepth.trans hdepth'.symm }

end

end Script
end Stencil
