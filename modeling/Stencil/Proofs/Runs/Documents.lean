import Stencil.Proofs.Runs.Text
import Stencil.Proofs.Twin.Data

/-!
# Runs — the text of data

Data becomes values of a store, and a value has a text there.  `Json.Document.text` says what that
text is without a store: the arrays and objects that data becomes are the store's own, so no array
contains itself and nothing that is made later changes them.

* `text_importDocument`: the value of data has the text of the data.
* `getProperty_importDocument`: so has what is read from it under a name.
-/

namespace Stencil

namespace Json

/-- Whether data is `null`. -/
def Document.isNull : Document → Bool
  | .null => true
  | _ => false

mutual

/-- **Data as text.** -/
def Document.text : Document → String
  | .null => "null"
  | .bool b => if b then "true" else "false"
  | .number x => Number.text x
  | .string t => t
  | .array items => ",".intercalate (itemTexts items)
  | .object _ => "[object Object]"

/-- The elements of an array as texts.  A `null` leaves nothing. -/
def itemTexts : List Document → List String
  | [] => []
  | item :: rest => (if item.isNull then "" else item.text) :: itemTexts rest

end

/-- The text of data that may be absent or `null`, which leaves nothing. -/
def writtenText : Option Document → String
  | none => ""
  | some d => if d.isNull then "" else d.text

end Json

namespace Script
open Json

mutual

/-- The value of data has its text to some depth, in every store that has grown since. -/
theorem textWithin?_importDocument : ∀ (document : Document) {s t u : Store} {v : Value}
    {n : Part → Nat}, importDocument document s = .ok v t → t.Grown u n →
    v.isNullish = document.isNull ∧ ∃ depth, u.textWithin? depth v = some document.text
  | .null, _, _, _, _, _, h, _ | .bool _, _, _, _, _, _, h, _ | .number _, _, _, _, _, _, h, _
  | .string _, _, _, _, _, _, h, _ => by
      cases h
      exact ⟨rfl, 0, rfl⟩
  | .object members, s, _, u, _, _, h, _ => by
      obtain ⟨fields, t, ht, -⟩ := grown_importMembers members s
      cases h.symm.trans (importDocument_object ht)
      exact ⟨rfl, 0, rfl⟩
  | .array items, s, t', u, v, n, h, g => by
      obtain ⟨vs, t, ht, -⟩ := grown_importItems items s
      rw [importDocument, run_bind, ht] at h
      cases h
      have pushed := Store.Grown.pushArray t vs.toArray
      have hitems : u.items t.arrays.size = vs.toArray := by
        have hlt : t.arrays.size < (t.arrays.push vs.toArray).size := by
          rw [Array.size_push]
          exact Nat.lt_succ_self _
        exact (g.content .arrays t.arrays.size hlt).trans
          ((t.items_push vs.toArray _).trans (if_pos rfl))
      obtain ⟨depth, hdepth⟩ := elementWithin?_importItems items ht (pushed.trans g)
      refine ⟨rfl, depth + 1, ?_⟩
      rw [Store.textWithin?_array, hitems, List.toList_toArray, hdepth]
      rfl

theorem elementWithin?_importItems : ∀ (items : List Document) {s t u : Store} {vs : List Value}
    {n : Part → Nat}, importItems items s = .ok vs t → t.Grown u n →
    ∃ depth, vs.mapM (u.elementWithin? depth) = some (itemTexts items)
  | [], _, _, _, _, _, h, _ => by
      cases h
      exact ⟨0, rfl⟩
  | item :: rest, s, _, u, _, _, h, g => by
      obtain ⟨v, t, ht, -⟩ := grown_importDocument item s
      obtain ⟨vs, t', ht', g'⟩ := grown_importItems rest t
      rw [importItems, run_bind, ht] at h
      dsimp only at h
      rw [run_bind, ht'] at h
      cases h
      obtain ⟨hnull, depth, hdepth⟩ := textWithin?_importDocument item ht (g'.trans g)
      obtain ⟨depth', hdepth'⟩ := elementWithin?_importItems rest ht' g
      -- Each element needs a depth of its own; the sum is enough for all of them.
      have first : u.elementWithin? (depth + depth') v =
          some (if item.isNull then "" else item.text) := by
        rw [Store.elementWithin?, hnull]
        split
        · rfl
        · exact Store.textWithin?_mono (Nat.le_add_right _ _) hdepth
      have others : vs.mapM (u.elementWithin? (depth + depth')) = some (itemTexts rest) := by
        refine Store.mapM_eq_some_of_imp (fun w x hw => ?_) hdepth'
        rw [Store.elementWithin?] at hw ⊢
        split
        · rename_i hn
          rwa [if_pos hn] at hw
        · rename_i hn
          rw [if_neg hn] at hw
          exact Store.textWithin?_mono (Nat.le_add_left _ _) hw
      refine ⟨depth + depth', ?_⟩
      rw [List.mapM_cons, first, others]
      rfl

end

/-- **The value of data has the text of the data**, in every store that has grown since. -/
theorem text_importDocument {document : Document} {s t u : Store} {v : Value} {n : Part → Nat}
    (h : importDocument document s = .ok v t) (g : t.Grown u n) :
    v.isNullish = document.isNull ∧ u.text v = document.text := by
  obtain ⟨hnull, depth, hdepth⟩ := textWithin?_importDocument document h g
  refine ⟨hnull, ?_⟩
  rw [Store.text_eq (Nat.le_max_right depth (u.arrays.size + 1)),
    Store.textWithin?_mono (Nat.le_max_left _ _) hdepth]
  rfl

/-- **What is read from an object of the data** under a name has the text of the last member with
that name. -/
theorem getProperty_importDocument {members : List (String × Document)} {s t : Store} {v : Value}
    (h : importDocument (.object members) s = .ok v t) (key : String) :
    ∃ w, getProperty v key t = .ok w t ∧
      (if w.isNullish then "" else t.text w) = writtenText (lastValue? members key) := by
  obtain ⟨fields, t', ht, -⟩ := grown_importMembers members s
  cases h.symm.trans (importDocument_object ht)
  have pushed := Store.Grown.pushObject t' (writtenFields fields)
  have hfields : Fields.get? (Store.fields { t' with objects := t'.objects.push (writtenFields fields) }
      t'.objects.size) key = lastValue? fields key := by
    rw [Store.fields_push, if_pos rfl, get?_writtenFields]
  refine ⟨_, rfl, ?_⟩
  rw [hfields]
  cases hlast : lastValue? members key with
  | none =>
      rw [lastValue?_eq_none, ← keys_importMembers ht, ← lastValue?_eq_none] at hlast
      rw [hlast]
      rfl
  | some document =>
      obtain ⟨u, u', w, n, hu, hw, -, grown⟩ := importMembers_last ht hlast
      obtain ⟨hnull, htext⟩ := text_importDocument hu (grown.trans pushed)
      rw [hw, Option.getD_some, hnull, htext]
      rfl

end Script
end Stencil
