import Stencil.Proofs.Pieces.Leftmost
import Mathlib.Data.List.DropRight
import Mathlib.Data.List.Chain

/-!
# Pieces — the pieces of a template tile its text

Each piece of a template covers a part of the text, and the parts are the text, in order and without a
gap (`Tiling`).  A literal covers what it says, a directive covers the match that is the first from where
the directive before it ended, and after the last directive nothing is reported any more.

**Tiling** (`tiling_ofTemplate`).  This holds of every text and of all searches that are leftmost, those of
all settings among them (`leftmost_find`).
-/

namespace Stencil.Piece

/-- A part of a text, and the piece that it is. -/
structure Tile where
  covered : List Char
  piece : Piece

namespace Tile

/-- Whether a tile is literal text. -/
def isText (tile : Tile) : Bool :=
  match tile.piece with
  | .literal _ => true
  | .directive .. => false

/-- The tile of literal text, unless there is none. -/
def ofText (text : List Char) : List Tile :=
  if text.isEmpty then [] else [⟨text, .literal (Literal.escape text)⟩]

/-- Where the last of some tiles that is a directive ends. -/
def cursor (tiles : List Tile) : Nat :=
  ((tiles.rdropWhile isText).flatMap covered).length

end Tile

/-- What a directive carries: the text of its first group, or nothing if the group took no part, and a
blank in place of no statements. -/
def carried (kind : Directive) (group : Option (List Char)) : List Char :=
  if kind = .evaluate ∧ group.getD [] = [] then [' '] else group.getD []

/-- **Tilings** of what follows a place. -/
structure Tiling (search : Directive → Search) (place : Place) (tiles : List Tile) : Prop where
  /-- The tiles are the text, in order. -/
  covers : tiles.flatMap Tile.covered = place.rest
  nonempty : ∀ tile ∈ tiles, tile.covered ≠ []
  /-- No two literals stand next to each other. -/
  apart : tiles.IsChain fun before after => ¬ (before.isText ∧ after.isText)
  /-- A literal is the text that it covers. -/
  text : ∀ tile ∈ tiles, ∀ cs, tile.piece = .literal cs → cs = Literal.escape tile.covered
  /-- A directive is the first from where the one before it ended. -/
  directive : ∀ before tile after, tiles = before ++ tile :: after →
    ∀ kind inner, tile.piece = .directive kind inner →
      ∃ hit, First search (place.advance (Tile.cursor before)) kind hit ∧
        Tile.cursor before + hit.skipped = (before.flatMap Tile.covered).length ∧
        hit.length = tile.covered.length ∧ inner = carried kind (hit.group? 1)
  /-- After the last directive nothing is reported. -/
  last : ∀ kind hit, ¬ Reports (search kind) (place.advance (Tile.cursor tiles)) hit

theorem inner_eq_carried (kind : Directive) (hit : Hit) :
    inner kind hit = carried kind (hit.group? 1) := by
  simp only [inner, carried]
  cases kind with
  | evaluate => cases (hit.group? 1).getD [] <;> rfl
  | escape | interpolate => rfl

/-! ### Literals between directives -/

namespace Tile

variable {text : List Char} {tile : Tile} {tiles : List Tile}

theorem flatMap_ofText (text : List Char) : (ofText text).flatMap covered = text := by
  cases text with
  | nil => rfl
  | cons c text => exact List.append_nil _

theorem map_ofText (text : List Char) : (ofText text).map piece = Piece.ofText text := by
  cases text <;> rfl

theorem eq_of_mem_ofText (h : tile ∈ ofText text) :
    tile = ⟨text, .literal (Literal.escape text)⟩ ∧ text ≠ [] := by
  cases text with
  | nil => cases h
  | cons c text => exact ⟨List.mem_singleton.mp h, List.cons_ne_nil _ _⟩

/-- A directive after literal text is none of its tiles. -/
theorem exists_gap_of_ofText_append {before after : List Tile} {kind : Directive}
    {inner : List Char} (heq : ofText text ++ tiles = before ++ tile :: after)
    (hpiece : tile.piece = .directive kind inner) :
    ∃ gap, before = ofText text ++ gap ∧ tiles = gap ++ tile :: after := by
  rcases List.append_eq_append_iff.mp heq with h | ⟨_ | ⟨first, rest⟩, htext, hrest⟩
  · exact h
  · exact ⟨[], by rw [htext, List.append_nil, List.append_nil], hrest.symm⟩
  · obtain ⟨rfl, -⟩ := List.cons.inj hrest
    have htile : tile ∈ ofText text := htext ▸ List.mem_append_right before List.mem_cons_self
    obtain ⟨rfl, -⟩ := eq_of_mem_ofText htile
    cases hpiece

theorem cursor_ofText (text : List Char) : cursor (ofText text) = 0 := by
  have hall : ∀ tile ∈ ofText text, isText tile = true := by
    intro tile h
    rw [(eq_of_mem_ofText h).1]
    rfl
  rw [cursor, List.rdropWhile_eq_nil_iff.mpr hall]
  rfl

/-- After a directive the cursor is where it ends, or further on. -/
theorem cursor_append (tiles : List Tile) (h : tile.isText = false) (more : List Tile) :
    cursor (tiles ++ tile :: more) =
      (tiles.flatMap covered).length + tile.covered.length + cursor more := by
  have hdrop : (tiles ++ tile :: more).rdropWhile isText =
      tiles ++ tile :: more.rdropWhile isText := by
    induction more using List.reverseRecOn with
    | nil => rw [List.rdropWhile_concat_neg isText tiles tile (by simp [h]), List.rdropWhile_nil]
    | append_singleton more last ih =>
        rw [← List.cons_append, ← List.append_assoc, List.rdropWhile_concat, List.rdropWhile_concat]
        split
        · exact ih
        · rw [List.append_assoc, List.cons_append]
  rw [cursor, hdrop, cursor]
  simp only [List.flatMap_append, List.flatMap_cons, List.length_append, Nat.add_assoc]

/-- Literal text before a directive. -/
theorem apart_append (h : tile.isText = false)
    (hmore : (tile :: tiles).IsChain fun before after => ¬ (before.isText ∧ after.isText)) :
    (ofText text ++ tile :: tiles).IsChain fun before after => ¬ (before.isText ∧ after.isText) := by
  cases text with
  | nil => exact hmore
  | cons c text => exact .cons_cons (by simp [h]) hmore

end Tile

/-! ### One directive after the other -/

section
variable {search : Directive → Search} {place : Place}

/-- **Text without a directive.** -/
theorem tiling_ofText (h : ∀ kind hit, ¬ Reports (search kind) place hit) :
    Tiling search place (Tile.ofText place.rest) where
  covers := Tile.flatMap_ofText _
  nonempty tile htile := by
    obtain ⟨rfl, hne⟩ := Tile.eq_of_mem_ofText htile
    exact hne
  apart := by
    cases place.rest with
    | nil => exact .nil
    | cons c rest => exact .singleton _
  text tile htile cs hcs := by
    obtain ⟨rfl, -⟩ := Tile.eq_of_mem_ofText htile
    cases hcs
    rfl
  directive before tile after heq kind inner hpiece := by
    have htile : tile ∈ Tile.ofText place.rest := heq ▸ List.mem_append_right _ List.mem_cons_self
    obtain ⟨rfl, -⟩ := Tile.eq_of_mem_ofText htile
    cases hpiece
  last := by
    rw [Tile.cursor_ofText]
    exact h

/-- The tile of a directive. -/
def Tile.ofHit (place : Place) (kind : Directive) (hit : Hit) : Tile :=
  ⟨(place.rest.drop hit.skipped).take hit.length, .directive kind (inner kind hit)⟩

/-- **A directive, and the tiles after it.** -/
theorem Tiling.after {kind : Directive} {hit : Hit} {tiles : List Tile}
    (hs : ∀ kind, Leftmost (search kind)) (hfirst : First search place kind hit)
    (h : Tiling search (place.advance (hit.skipped + hit.length)) tiles) :
    Tiling search place
      (Tile.ofText (place.rest.take hit.skipped) ++ Tile.ofHit place kind hit :: tiles) := by
  have hwithin := hfirst.reports.le_length (hs kind)
  have hpositive := hfirst.reports.nonempty
  have hdirective : (Tile.ofHit place kind hit).isText = false := rfl
  have hgap : (place.rest.take hit.skipped).length = hit.skipped := by
    rw [List.length_take]
    omega
  have hcovered : (Tile.ofHit place kind hit).covered.length = hit.length := by
    simp only [Tile.ofHit, List.length_take, List.length_drop]
    omega
  have hcursor : ∀ more, Tile.cursor (Tile.ofText (place.rest.take hit.skipped) ++
      Tile.ofHit place kind hit :: more) = hit.skipped + hit.length + Tile.cursor more := by
    intro more
    rw [Tile.cursor_append _ hdirective, Tile.flatMap_ofText, hgap, hcovered]
  constructor
  case covers =>
    rw [List.flatMap_append, List.flatMap_cons, Tile.flatMap_ofText, h.covers, Place.rest_advance,
      ← List.drop_drop, Tile.ofHit, List.take_append_drop, List.take_append_drop]
  case nonempty =>
    intro tile htile
    rcases List.mem_append.mp htile with htile | htile
    · obtain ⟨rfl, hne⟩ := Tile.eq_of_mem_ofText htile
      exact hne
    · rcases List.mem_cons.mp htile with rfl | htile
      · exact List.ne_nil_of_length_pos (by omega)
      · exact h.nonempty tile htile
  case apart =>
    refine Tile.apart_append hdirective ?_
    cases tiles with
    | nil => exact .singleton _
    | cons next tiles => exact .cons_cons (by simp [hdirective]) h.apart
  case text =>
    intro tile htile cs hcs
    rcases List.mem_append.mp htile with htile | htile
    · obtain ⟨rfl, -⟩ := Tile.eq_of_mem_ofText htile
      cases hcs
      rfl
    · rcases List.mem_cons.mp htile with rfl | htile
      · cases hcs
      · exact h.text tile htile cs hcs
  case directive =>
    intro before tile after heq other content hpiece
    obtain ⟨gap, hbefore, hrest⟩ := Tile.exists_gap_of_ofText_append heq hpiece
    cases gap with
    | nil =>
        -- the directive that is found first
        rw [List.append_nil] at hbefore
        obtain ⟨rfl, -⟩ := List.cons.inj hrest
        cases hpiece
        rw [hbefore, Tile.cursor_ofText, Tile.flatMap_ofText, hgap]
        exact ⟨hit, hfirst, Nat.zero_add _, hcovered.symm, inner_eq_carried kind hit⟩
    | cons first gap =>
        -- one of those after it, whose place is counted from where the first one ends
        obtain ⟨rfl, htail⟩ := List.cons.inj hrest
        obtain ⟨found, hfound, hskipped, hlength, hcontent⟩ :=
          h.directive gap tile after htail other content hpiece
        refine ⟨found, ?_, ?_, hlength, hcontent⟩
        · rw [hbefore, hcursor, Place.advance_add]
          exact hfound
        · rw [hbefore, hcursor, List.flatMap_append, List.flatMap_cons, Tile.flatMap_ofText,
            List.length_append, List.length_append, hgap, hcovered]
          omega
  case last =>
    intro other found
    rw [hcursor, Place.advance_add]
    exact h.last other found

/-- **The pieces from a place on tile the text.** -/
theorem exists_tiling (hs : ∀ kind, Leftmost (search kind)) (place : Place) :
    ∃ tiles : List Tile, tiles.map Tile.piece = all search place ∧ Tiling search place tiles := by
  induction hn : place.rest.length using Nat.strongRecOn generalizing place with
  | ind n ih =>
      have hfirst := isFirst_next? hs place
      match hnext : next? search place with
      | none =>
          rw [hnext] at hfirst
          refine ⟨Tile.ofText place.rest, ?_, tiling_ofText hfirst⟩
          rw [Tile.map_ofText, all, hnext]
      | some (kind, hit) =>
          rw [hnext] at hfirst
          have hwithin := hfirst.reports.le_length (hs kind)
          have hpositive := hfirst.reports.nonempty
          have hrest : place.rest ≠ [] := List.ne_nil_of_length_pos (by omega)
          have hshorter : (place.advance (hit.skipped + hit.length)).rest.length < n := by
            rw [Place.rest_advance, List.length_drop]
            omega
          obtain ⟨tiles, hpieces, htiling⟩ := ih _ hshorter _ rfl
          refine ⟨_, ?_, htiling.after hs hfirst⟩
          rw [List.map_append, List.map_cons, hpieces, Tile.map_ofText, all.eq_def search place, hnext]
          exact (if_pos ⟨hpositive, hrest⟩).symm

end

/-- **The pieces of a template tile its text.** -/
theorem tiling_ofTemplate {search : Directive → Search} (hs : ∀ kind, Leftmost (search kind))
    (text : String) : ∃ tiles : List Tile,
      tiles.map Tile.piece = ofTemplate search text ∧ Tiling search (Place.start text.toList) tiles :=
  exists_tiling hs _

/-- Settings with one delimiter, which matches without a character too. -/
def starSettings : Settings :=
  ⟨none, some ⟨"(x*)", .group 1 (.repetition (.char (.one 'x')) 0 none true)⟩, none, none⟩

/-- The empty match at the beginning is stepped over. -/
theorem tiling_ofTemplate_star : (∀ kind, Leftmost (starSettings.find kind)) ∧
    ofTemplate starSettings.find "éxx" = [.literal ['é'], .directive .interpolate ['x', 'x']] ∧
    ∃ tiles : List Tile, tiles.map Tile.piece = ofTemplate starSettings.find "éxx" ∧
      Tiling starSettings.find (Place.start "éxx".toList) tiles :=
  ⟨leftmost_find starSettings, by decide +kernel, tiling_ofTemplate (leftmost_find starSettings) "éxx"⟩

end Stencil.Piece
