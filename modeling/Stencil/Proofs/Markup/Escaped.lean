import Stencil.Markup.Entity
import Mathlib.Data.List.Infix

/-!
# Markup — escaped text

A text is *escaped* if no bracket and no quote stands in it and every ampersand begins an entity.  The
escaped texts are exactly those that escaping produces: a text that is escaped is what escaping makes of
what it stands for (`escape_unescapeChars`), and every text can be read back from what escaping makes of
it (`unescapeChars_escape`).

The two functions do not walk alike.  Escaping goes on by one character, and reading back by one entity
or one character; the induction for the latter is on the length of the text, since an entity takes
several characters of it.
-/

namespace Stencil.Markup

/-- The characters that have no place in escaped text. -/
def brackets : List Char :=
  ['<', '>', '"', '\'', '\x60']

/-- Texts that begin with an entity. -/
def BeginsEntity (cs : List Char) : Prop :=
  ∃ pair ∈ entities, pair.2.toList <+: cs

/-- **Escaped text.** -/
structure Escaped (cs : List Char) : Prop where
  unbracketed : ∀ c ∈ cs, c ∉ brackets
  ampersands : ∀ rest, '&' :: rest <:+ cs → BeginsEntity ('&' :: rest)

/-! ### Characters and entities -/

theorem entity?_of_not_mem {c : Char} (h : c ∉ '&' :: brackets) : entity? c = none := by
  refine List.lookup_eq_none_iff.mpr fun pair hpair => bne_iff_ne.mpr fun heq => h ?_
  rw [heq]
  exact List.mem_map_of_mem (f := Prod.fst) hpair

theorem escapeChar_of_not_mem {c : Char} (h : c ∉ '&' :: brackets) : escapeChar c = [c] := by
  rw [escapeChar, entity?_of_not_mem h]

theorem escapeChar_entity {pair : Char × String} (h : pair ∈ entities) :
    escapeChar pair.1 = pair.2.toList := by
  simp only [entities, List.mem_cons, List.not_mem_nil, or_false] at h
  rcases h with rfl | rfl | rfl | rfl | rfl | rfl <;> rfl

theorem exists_entity {c : Char} (h : c ∈ '&' :: brackets) : ∃ pair ∈ entities, pair.1 = c := by
  simp only [brackets, List.mem_cons, List.not_mem_nil, or_false] at h
  rcases h with rfl | rfl | rfl | rfl | rfl | rfl <;> decide

/-- An entity is an ampersand and characters that are neither ampersands nor brackets. -/
theorem entity_eq_cons {pair : Char × String} (h : pair ∈ entities) :
    ∃ body, pair.2.toList = '&' :: body ∧ ∀ c ∈ body, c ∉ '&' :: brackets := by
  have all : ∀ pair ∈ entities, pair.2.toList = '&' :: pair.2.toList.tail ∧
      pair.2.toList.tail.all (fun c => decide (c ∉ '&' :: brackets)) = true := by
    decide
  obtain ⟨hcons, hbody⟩ := all pair h
  exact ⟨_, hcons, fun c hc => of_decide_eq_true (List.all_eq_true.mp hbody c hc)⟩

/-- No two entities begin alike, so that the one that is found is the one that stands there. -/
theorem entityAt?_entity {pair : Char × String} (h : pair ∈ entities) (rest : List Char) :
    entityAt? (pair.2.toList ++ rest) = some pair := by
  simp only [entities, List.mem_cons, List.not_mem_nil, or_false] at h
  rcases h with rfl | rfl | rfl | rfl | rfl | rfl <;> rfl

theorem entityAt?_eq_none {cs : List Char} : entityAt? cs = none ↔ ¬ BeginsEntity cs := by
  simp [entityAt?, BeginsEntity, List.find?_eq_none]

theorem entityAt?_of_ne {c : Char} (h : c ≠ '&') (rest : List Char) :
    entityAt? (c :: rest) = none := by
  rw [entityAt?_eq_none]
  rintro ⟨pair, hpair, hprefix⟩
  obtain ⟨body, hbody, -⟩ := entity_eq_cons hpair
  rw [hbody] at hprefix
  exact h (List.cons_prefix_cons.mp hprefix).1.symm

/-! ### Escaped text -/

namespace Escaped

variable {c : Char} {cs ds : List Char}

theorem nil : Escaped [] :=
  ⟨fun _ h => absurd h List.not_mem_nil, fun _ h => absurd (List.suffix_nil.mp h) (List.cons_ne_nil _ _)⟩

theorem suffix (h : Escaped cs) (hs : ds <:+ cs) : Escaped ds :=
  ⟨fun c hc => h.unbracketed c (hs.mem hc), fun rest hr => h.ampersands rest (hr.trans hs)⟩

/-- A character in front that needs no entity. -/
theorem cons (hc : c ∉ '&' :: brackets) (h : Escaped cs) : Escaped (c :: cs) := by
  obtain ⟨hamp, hbracket⟩ := not_or.mp (mt List.mem_cons.mpr hc)
  refine ⟨List.forall_mem_cons.mpr ⟨hbracket, h.unbracketed⟩, fun rest hs => ?_⟩
  rcases List.suffix_cons_iff.mp hs with heq | hs
  · exact absurd (List.cons.inj heq).1.symm hamp
  · exact h.ampersands rest hs

theorem append (hc : ∀ c ∈ cs, c ∉ '&' :: brackets) (h : Escaped ds) : Escaped (cs ++ ds) := by
  induction cs with
  | nil => exact h
  | cons c cs ih =>
      exact cons (hc c List.mem_cons_self) (ih fun d hd => hc d (List.mem_cons_of_mem c hd))

/-- An entity in front. -/
theorem entity {pair : Char × String} (hpair : pair ∈ entities) (h : Escaped cs) :
    Escaped (pair.2.toList ++ cs) := by
  obtain ⟨body, hbody, hplain⟩ := entity_eq_cons hpair
  have hrest : Escaped (body ++ cs) := append hplain h
  rw [hbody, List.cons_append]
  refine ⟨List.forall_mem_cons.mpr ⟨by decide, hrest.unbracketed⟩, fun rest hs => ?_⟩
  rcases List.suffix_cons_iff.mp hs with heq | hs
  · rw [heq]
    exact ⟨pair, hpair, by rw [hbody]; exact List.prefix_append ('&' :: body) cs⟩
  · exact hrest.ampersands rest hs

/-- What begins with an ampersand begins with an entity, and the text after that is escaped. -/
theorem exists_entity (h : Escaped ('&' :: cs)) :
    ∃ pair ∈ entities, ∃ rest, '&' :: cs = pair.2.toList ++ rest ∧ Escaped rest := by
  obtain ⟨pair, hpair, rest, hrest⟩ := h.ampersands cs List.suffix_rfl
  exact ⟨pair, hpair, rest, hrest.symm, h.suffix ⟨pair.2.toList, hrest⟩⟩

end Escaped

/-- **What escaping makes is escaped.** -/
theorem escaped_escape (cs : List Char) : Escaped (cs.flatMap escapeChar) := by
  induction cs with
  | nil => exact .nil
  | cons c cs ih =>
      rw [List.flatMap_cons]
      by_cases hc : c ∈ '&' :: brackets
      · obtain ⟨pair, hpair, rfl⟩ := exists_entity hc
        rw [escapeChar_entity hpair]
        exact ih.entity hpair
      · rw [escapeChar_of_not_mem hc]
        exact ih.cons hc

/-! ### Reading back -/

/-- The characters of an entity that was replaced are passed. -/
theorem unescapeChars_skip (cs rest : List Char) :
    unescapeChars cs.length (cs ++ rest) = unescapeChars 0 rest := by
  induction cs with
  | nil => rfl
  | cons c cs ih => exact ih

/-- An entity in front is read as its character. -/
theorem unescapeChars_entity {pair : Char × String} (h : pair ∈ entities) (rest : List Char) :
    unescapeChars 0 (pair.2.toList ++ rest) = pair.1 :: unescapeChars 0 rest := by
  have hfound := entityAt?_entity h rest
  obtain ⟨body, hbody, -⟩ := entity_eq_cons h
  have hlength : pair.2.length - 1 = body.length := by
    rw [← String.length_toList, hbody, List.length_cons, Nat.add_sub_cancel]
  rw [hbody, List.cons_append] at hfound ⊢
  rw [unescapeChars, hfound]
  simp only [hlength, unescapeChars_skip]

/-- A character in front with which no entity begins is read as it is. -/
theorem unescapeChars_of_ne {c : Char} (h : c ≠ '&') (rest : List Char) :
    unescapeChars 0 (c :: rest) = c :: unescapeChars 0 rest := by
  rw [unescapeChars, entityAt?_of_ne h]

/-- **Escaping loses nothing.** -/
theorem unescapeChars_escape (cs : List Char) : unescapeChars 0 (cs.flatMap escapeChar) = cs := by
  induction cs with
  | nil => rfl
  | cons c cs ih =>
      rw [List.flatMap_cons]
      by_cases hc : c ∈ '&' :: brackets
      · obtain ⟨pair, hpair, rfl⟩ := exists_entity hc
        rw [escapeChar_entity hpair, unescapeChars_entity hpair, ih]
      · have hne : c ≠ '&' := fun h => hc (h ▸ List.mem_cons_self)
        rw [escapeChar_of_not_mem hc, List.singleton_append, unescapeChars_of_ne hne, ih]

/-- **Escaped text is what escaping makes of what it stands for.** -/
theorem escape_unescapeChars {cs : List Char} (h : Escaped cs) :
    (unescapeChars 0 cs).flatMap escapeChar = cs := by
  induction hn : cs.length using Nat.strongRecOn generalizing cs with
  | ind n ih =>
      cases cs with
      | nil => rfl
      | cons c cs =>
          by_cases hc : c = '&'
          · subst hc
            obtain ⟨pair, hpair, rest, heq, hrest⟩ := h.exists_entity
            obtain ⟨body, hbody, -⟩ := entity_eq_cons hpair
            have hshorter : rest.length < n := by
              rw [← hn, heq, hbody, List.length_append, List.length_cons]
              omega
            rw [heq, unescapeChars_entity hpair, List.flatMap_cons, escapeChar_entity hpair,
              ih rest.length hshorter hrest rfl]
          · have hplain : c ∉ '&' :: brackets := by
              rw [List.mem_cons, not_or]
              exact ⟨hc, h.unbracketed c List.mem_cons_self⟩
            have hshorter : cs.length < n := by
              rw [← hn]
              exact Nat.lt_succ_self _
            rw [unescapeChars_of_ne hc, List.flatMap_cons, escapeChar_of_not_mem hplain,
              ih cs.length hshorter (h.suffix (List.suffix_cons c cs)) rfl, List.singleton_append]

/-! ### Texts -/

/-- **Escaping and reading back.**  What escaping makes of a text is escaped and is read back as the
text, and the texts that are escaped again as they were are the escaped ones. -/
theorem escape_unescape_inverse :
    (∀ s : String, Escaped (escape s).toList ∧ unescape (escape s) = s) ∧
      ∀ t : String, escape (unescape t) = t ↔ Escaped t.toList := by
  refine ⟨fun s => ⟨?_, ?_⟩, fun t => ⟨fun h => ?_, fun h => ?_⟩⟩
  · rw [escape, String.toList_ofList]
    exact escaped_escape s.toList
  · rw [unescape, escape, String.toList_ofList, unescapeChars_escape, String.ofList_toList]
  · rw [← h, escape, String.toList_ofList]
    exact escaped_escape _
  · rw [escape, unescape, String.toList_ofList, escape_unescapeChars h, String.ofList_toList]

end Stencil.Markup
