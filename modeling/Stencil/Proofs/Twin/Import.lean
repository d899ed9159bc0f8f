import Stencil.Proofs.Twin.Heap

/-!
# Twin — documents in two stores

Making the value of a document only adds to a heap: as many arrays and objects as the document is
made of (`grown_importDocument`).  What it adds to two stores for the same document is the same, up
to where it lies (`made_importDocument`).

Both are said of arrays and objects at once: a `Part` is one of the two, and `Store.content` is what
a store holds in it.
-/

namespace Stencil
namespace Script

/-- The parts of a heap. -/
inductive Part where
  | arrays
  | objects

namespace Part

/-- What is held in one place of a part. -/
def Content : Part → Type
  | arrays => Array Value
  | objects => Fields

/-- How many places of a part an array takes. -/
def ofArray : Part → Nat
  | arrays => 1
  | objects => 0

/-- How many places of a part an object takes. -/
def ofObject : Part → Nat
  | arrays => 0
  | objects => 1

end Part

/-- How many places of a part are taken. -/
def Store.count (s : Store) : Part → Nat
  | .arrays => s.arrays.size
  | .objects => s.objects.size

/-- What is held in a place. -/
def Store.content (s : Store) : (part : Part) → Ref → part.Content
  | .arrays => s.items
  | .objects => s.fields

end Script

namespace Json
open Script

mutual

/-- How many places of a part the value of a document takes. -/
def Document.count (part : Part) : Document → Nat
  | .array items => countItems part items + part.ofArray
  | .object members => countMembers part members + part.ofObject
  | .null => 0
  | .bool _ => 0
  | .number _ => 0
  | .string _ => 0

/-- How many the values of some documents take. -/
def countItems (part : Part) : List Document → Nat
  | [] => 0
  | item :: rest => item.count part + countItems part rest

/-- How many the values of members take. -/
def countMembers (part : Part) : List (String × Document) → Nat
  | [] => 0
  | (_, item) :: rest => item.count part + countMembers part rest

end

end Json

namespace Script
open Json

/-! ### Growing -/

/-- **Stores that have grown**, by the given number of places. -/
structure Store.Grown (s t : Store) (n : Part → Nat) : Prop where
  count : ∀ part, t.count part = s.count part + n part
  content : ∀ part r, r < s.count part → t.content part r = s.content part r

namespace Store.Grown
variable {s t u : Store} {m n : Part → Nat}

theorem refl (s : Store) : s.Grown s fun _ => 0 :=
  ⟨fun _ => rfl, fun _ _ _ => rfl⟩

theorem trans (h : s.Grown t m) (h' : t.Grown u n) : s.Grown u fun part => m part + n part where
  count part := by rw [h'.count, h.count, Nat.add_assoc]
  content part r hr := by
    rw [h'.content part r (h.count part ▸ Nat.lt_add_right _ hr), h.content part r hr]

theorem pushArray (s : Store) (items : Array Value) :
    s.Grown { s with arrays := s.arrays.push items } Part.ofArray where
  count part := by
    cases part with
    | arrays => exact Array.size_push _
    | objects => rfl
  content part r hr := by
    cases part with
    | arrays => exact (s.items_push items r).trans (if_neg (Nat.ne_of_lt hr))
    | objects => rfl

theorem pushObject (s : Store) (fields : Fields) :
    s.Grown { s with objects := s.objects.push fields } Part.ofObject where
  count part := by
    cases part with
    | arrays => rfl
    | objects => exact Array.size_push _
  content part r hr := by
    cases part with
    | arrays => rfl
    | objects => exact (s.fields_push fields r).trans (if_neg (Nat.ne_of_lt hr))

end Store.Grown

/-- The fields of an object with the given members, some of which may have one key. -/
def writtenFields (members : List (String × Value)) : Fields :=
  members.foldl (fun all p => all.put p.1 p.2) []

theorem importDocument_object {members : List (String × Document)} {s t : Store}
    {fields : List (String × Value)} (h : importMembers members s = .ok fields t) :
    importDocument (.object members) s = .ok (.object t.objects.size)
      { t with objects := t.objects.push (writtenFields fields) } := by
  rw [importDocument, run_bind, h]
  rfl

mutual

/-- **Making the value of a document** always ends, and the store has grown by what the document
takes. -/
theorem grown_importDocument : ∀ (document : Document) (s : Store), ∃ v t,
    importDocument document s = .ok v t ∧ s.Grown t (document.count ·)
  | .null, s => ⟨_, _, rfl, .refl s⟩
  | .bool _, s => ⟨_, _, rfl, .refl s⟩
  | .number _, s => ⟨_, _, rfl, .refl s⟩
  | .string _, s => ⟨_, _, rfl, .refl s⟩
  | .array items, s => by
      obtain ⟨vs, t, h, g⟩ := grown_importItems items s
      refine ⟨.array t.arrays.size, _, ?_, g.trans (.pushArray t vs.toArray)⟩
      rw [importDocument, run_bind, h]
      rfl
  | .object members, s => by
      obtain ⟨fields, t, h, g⟩ := grown_importMembers members s
      exact ⟨_, _, importDocument_object h, g.trans (.pushObject t _)⟩

theorem grown_importItems : ∀ (items : List Document) (s : Store), ∃ vs t,
    importItems items s = .ok vs t ∧ s.Grown t (countItems · items)
  | [], s => ⟨_, _, rfl, .refl s⟩
  | item :: rest, s => by
      obtain ⟨v, t, h, g⟩ := grown_importDocument item s
      obtain ⟨vs, u, h', g'⟩ := grown_importItems rest t
      refine ⟨v :: vs, u, ?_, g.trans g'⟩
      rw [importItems, run_bind, h]
      dsimp only
      rw [run_bind, h']
      rfl

theorem grown_importMembers : ∀ (members : List (String × Document)) (s : Store), ∃ fields t,
    importMembers members s = .ok fields t ∧ s.Grown t (countMembers · members)
  | [], s => ⟨_, _, rfl, .refl s⟩
  | (key, item) :: rest, s => by
      obtain ⟨v, t, h, g⟩ := grown_importDocument item s
      obtain ⟨fields, u, h', g'⟩ := grown_importMembers rest t
      refine ⟨(key, v) :: fields, u, ?_, g.trans g'⟩
      rw [importMembers, run_bind, h]
      dsimp only
      rw [run_bind, h']
      rfl

end

section
variable {s t : Store}

theorem Store.Grown.of_importMembers {members : List (String × Document)}
    {fields : List (String × Value)} (h : importMembers members s = .ok fields t) :
    s.Grown t (countMembers · members) := by
  obtain ⟨w, u, hu, g⟩ := grown_importMembers members s
  cases h.symm.trans hu
  exact g

end

/-! ### The same document twice -/

namespace Link

/-- The places of a part that correspond. -/
def places (K : Link) : Part → Ref → Ref → Prop
  | .arrays => K.arrays
  | .objects => K.objects

/-- Contents that are the same. -/
def SameContent (K : Link) : (part : Part) → part.Content → part.Content → Prop
  | .arrays => fun (xs ys : Array Value) => K.SameValues xs.toList ys.toList
  | .objects => List.Forall₂ K.SameField

/-- The next places of two stores correspond, as many as are given. -/
def Covers (K : Link) (s s' : Store) (n : Part → Nat) : Prop :=
  ∀ part, ∀ i < n part, K.places part (s.count part + i) (s'.count part + i)

/-- **The same was added to two stores.** -/
structure Made (K : Link) (s s' t t' : Store) (n : Part → Nat) : Prop where
  left : s.Grown t n
  right : s'.Grown t' n
  same : ∀ part, ∀ i < n part,
    K.SameContent part (t.content part (s.count part + i)) (t'.content part (s'.count part + i))

variable {K : Link} {s s' t t' u u' : Store} {m n : Part → Nat}

theorem Covers.left (h : K.Covers s s' fun part => m part + n part) : K.Covers s s' m :=
  fun part i hi => h part i (Nat.lt_add_right _ hi)

theorem Covers.right (h : K.Covers s s' fun part => m part + n part) (g : s.Grown t m)
    (g' : s'.Grown t' m) : K.Covers t t' n := fun part i hi => by
  rw [g.count, g'.count, Nat.add_assoc, Nat.add_assoc]
  exact h part (m part + i) (Nat.add_lt_add_left hi _)

theorem made_refl (s s' : Store) : K.Made s s' s s' fun _ => 0 :=
  ⟨.refl s, .refl s', fun _ _ hi => absurd hi (Nat.not_lt_zero _)⟩

theorem Made.trans (h : K.Made s s' t t' m) (h' : K.Made t t' u u' n) :
    K.Made s s' u u' fun part => m part + n part where
  left := h.left.trans h'.left
  right := h.right.trans h'.right
  same part i hi := by
    have hc := h.left.count part
    have hc' := h.right.count part
    by_cases him : i < m part
    · rw [h'.left.content part _ (by omega), h'.right.content part _ (by omega)]
      exact h.same part i him
    · have later := h'.same part (i - m part) (by omega)
      rwa [show t.count part + (i - m part) = s.count part + i by omega,
        show t'.count part + (i - m part) = s'.count part + i by omega] at later

theorem made_pushArray (s s' : Store) {xs ys : Array Value}
    (h : K.SameValues xs.toList ys.toList) :
    K.Made s s' { s with arrays := s.arrays.push xs } { s' with arrays := s'.arrays.push ys }
      Part.ofArray where
  left := .pushArray s xs
  right := .pushArray s' ys
  same part i hi := by
    cases part with
    | objects => exact absurd hi (Nat.not_lt_zero _)
    | arrays =>
        obtain rfl : i = 0 := Nat.lt_one_iff.mp hi
        show K.SameValues (Array.toList (Store.items _ s.arrays.size))
          (Array.toList (Store.items _ s'.arrays.size))
        rw [Store.items_push, Store.items_push, if_pos rfl, if_pos rfl]
        exact h

theorem made_pushObject (s s' : Store) {fields fields' : Fields}
    (h : List.Forall₂ K.SameField fields fields') :
    K.Made s s' { s with objects := s.objects.push fields }
      { s' with objects := s'.objects.push fields' } Part.ofObject where
  left := .pushObject s fields
  right := .pushObject s' fields'
  same part i hi := by
    cases part with
    | arrays => exact absurd hi (Nat.not_lt_zero _)
    | objects =>
        obtain rfl : i = 0 := Nat.lt_one_iff.mp hi
        show List.Forall₂ K.SameField (Store.fields _ s.objects.size)
          (Store.fields _ s'.objects.size)
        rw [Store.fields_push, Store.fields_push, if_pos rfl, if_pos rfl]
        exact h

/-- Fields that are written one after the other are the same if each is. -/
theorem sameFields_written {new new' : Fields} (h : List.Forall₂ K.SameField new new') :
    List.Forall₂ K.SameField (writtenFields new) (writtenFields new') := by
  have onto : ∀ {all all' : Fields}, List.Forall₂ K.SameField all all' →
      List.Forall₂ K.SameField (new.foldl (fun (all : Fields) p => all.put p.1 p.2) all)
        (new'.foldl (fun (all : Fields) p => all.put p.1 p.2) all') := by
    induction h with
    | nil => exact id
    | @cons p q l l' hp _ ih =>
        intro all all' hall
        refine ih ?_
        show List.Forall₂ K.SameField (all.put p.1 p.2) (all'.put q.1 q.2)
        rw [hp.1]
        exact put_sameFields hall q.1 hp.2
  exact onto .nil

mutual

/-- **The same document in two stores** makes the same value, if the places that it takes
correspond. -/
theorem made_importDocument : ∀ (document : Document) {s s' t t' : Store} {v v' : Value},
    importDocument document s = .ok v t → importDocument document s' = .ok v' t' →
    K.Covers s s' (document.count ·) →
    K.Same v v' ∧ K.Made s s' t t' (document.count ·)
  | .null, _, _, _, _, _, _, h, h', _ => by cases h; cases h'; exact ⟨.null, made_refl _ _⟩
  | .bool b, _, _, _, _, _, _, h, h', _ => by cases h; cases h'; exact ⟨.bool b, made_refl _ _⟩
  | .number x, _, _, _, _, _, _, h, h', _ => by
      cases h; cases h'; exact ⟨.number x, made_refl _ _⟩
  | .string x, _, _, _, _, _, _, h, h', _ => by
      cases h; cases h'; exact ⟨.string x, made_refl _ _⟩
  | .array items, s, s', _, _, _, _, h, h', hk => by
      obtain ⟨vs, t, ht, -⟩ := grown_importItems items s
      obtain ⟨vs', t', ht', -⟩ := grown_importItems items s'
      obtain ⟨hv, made⟩ := made_importItems items ht ht' (Covers.left hk)
      rw [importDocument, run_bind, ht] at h
      rw [importDocument, run_bind, ht'] at h'
      cases h
      cases h'
      -- the array itself is made after all its elements
      have here := Covers.right hk made.left made.right .arrays 0 Nat.zero_lt_one
      exact ⟨.array here, made.trans (made_pushArray t t' hv)⟩
  | .object members, s, s', _, _, _, _, h, h', hk => by
      obtain ⟨fields, t, ht, -⟩ := grown_importMembers members s
      obtain ⟨fields', t', ht', -⟩ := grown_importMembers members s'
      obtain ⟨hf, made⟩ := made_importMembers members ht ht' (Covers.left hk)
      cases h.symm.trans (importDocument_object ht)
      cases h'.symm.trans (importDocument_object ht')
      have here := Covers.right hk made.left made.right .objects 0 Nat.zero_lt_one
      exact ⟨.object here, made.trans (made_pushObject t t' (sameFields_written hf))⟩

theorem made_importItems : ∀ (items : List Document) {s s' t t' : Store} {vs vs' : List Value},
    importItems items s = .ok vs t → importItems items s' = .ok vs' t' →
    K.Covers s s' (countItems · items) →
    K.SameValues vs vs' ∧ K.Made s s' t t' (countItems · items)
  | [], _, _, _, _, _, _, h, h', _ => by cases h; cases h'; exact ⟨.nil, made_refl _ _⟩
  | item :: rest, s, s', _, _, _, _, h, h', hk => by
      obtain ⟨v, t, ht, -⟩ := grown_importDocument item s
      obtain ⟨v', t', ht', -⟩ := grown_importDocument item s'
      obtain ⟨hv, made⟩ := made_importDocument item ht ht' (Covers.left hk)
      obtain ⟨vs, u, hu, -⟩ := grown_importItems rest t
      obtain ⟨vs', u', hu', -⟩ := grown_importItems rest t'
      obtain ⟨hvs, later⟩ := made_importItems rest hu hu' (Covers.right hk made.left made.right)
      rw [importItems, run_bind, ht] at h
      rw [importItems, run_bind, ht'] at h'
      dsimp only at h h'
      rw [run_bind, hu] at h
      rw [run_bind, hu'] at h'
      cases h
      cases h'
      exact ⟨.cons hv hvs, made.trans later⟩

theorem made_importMembers : ∀ (members : List (String × Document)) {s s' t t' : Store}
    {fields fields' : List (String × Value)},
    importMembers members s = .ok fields t → importMembers members s' = .ok fields' t' →
    K.Covers s s' (countMembers · members) →
    List.Forall₂ K.SameField fields fields' ∧ K.Made s s' t t' (countMembers · members)
  | [], _, _, _, _, _, _, h, h', _ => by cases h; cases h'; exact ⟨.nil, made_refl _ _⟩
  | (key, item) :: rest, s, s', _, _, _, _, h, h', hk => by
      obtain ⟨v, t, ht, -⟩ := grown_importDocument item s
      obtain ⟨v', t', ht', -⟩ := grown_importDocument item s'
      obtain ⟨hv, made⟩ := made_importDocument item ht ht' (Covers.left hk)
      obtain ⟨fields, u, hu, -⟩ := grown_importMembers rest t
      obtain ⟨fields', u', hu', -⟩ := grown_importMembers rest t'
      obtain ⟨hf, later⟩ := made_importMembers rest hu hu' (Covers.right hk made.left made.right)
      rw [importMembers, run_bind, ht] at h
      rw [importMembers, run_bind, ht'] at h'
      dsimp only at h h'
      rw [run_bind, hu] at h
      rw [run_bind, hu'] at h'
      cases h
      cases h'
      exact ⟨.cons ⟨rfl, hv⟩ hf, made.trans later⟩

end

end Link

end Script
end Stencil
