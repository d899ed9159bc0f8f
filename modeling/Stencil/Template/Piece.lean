import Stencil.Pattern.Find
import Stencil.Template.Directive
import Stencil.Template.Literal

/-!
# Template — Pieces

A template's text cut into literal text and directives.  At each step the first match that is not
empty is sought for every kind of directive, and the one that begins first is taken; of those that
begin together, the one whose kind comes first.

Searching is any function that reports a match by the number of characters before it and in it.
The recursion is on the characters left, since a directive covers one at least.
-/

namespace Stencil

/-- A piece of a template: text, as it is written in a string literal, or a directive with what is
inside it. -/
inductive Piece where
  | literal (text : List Char)
  | directive (kind : Directive) (inner : List Char)
  deriving DecidableEq, Repr

namespace Piece

/-- A search for the first match at or after a place. -/
abbrev Search := Place → Option Hit

/-- A match seen from a place that lies some characters before. -/
def shift (hit : Hit) (count : Nat) : Hit :=
  { hit with skipped := count + hit.skipped }

/-- The first match that is not empty: after an empty one the search goes on one character past
it. -/
def firstNonEmpty (search : Search) (place : Place) : Option Hit :=
  match search place with
  | none => none
  | some hit =>
    if hit.length = 0 then
      if hit.skipped < place.rest.length then
        (firstNonEmpty search (place.advance (hit.skipped + 1))).map
          fun found => shift found (hit.skipped + 1)
      else none
    else some hit
  termination_by place.rest.length
  decreasing_by
    simp only [Place.rest_advance, List.length_drop]
    omega

/-- The match of two that begins first, or the former if they begin together. -/
def earlier (best : Option (Directive × Hit)) (kind : Directive) (found : Option Hit) :
    Option (Directive × Hit) :=
  match best, found with
  | best, none => best
  | none, some hit => some (kind, hit)
  | some (other, first), some hit =>
    if hit.skipped < first.skipped then some (kind, hit) else some (other, first)

/-- The directive that comes next, and its kind. -/
def next? (search : Directive → Search) (place : Place) : Option (Directive × Hit) :=
  Directive.all.foldl (fun best kind => earlier best kind (firstNonEmpty (search kind) place)) none

/-- What is inside a directive: the text of the first group, or nothing if it took no part.
Statements that are empty are a blank. -/
def inner (kind : Directive) (hit : Hit) : List Char :=
  match kind, (hit.group? 1).getD [] with
  | .evaluate, [] => [' ']
  | _, text => text

/-- Literal text as a piece, unless there is none. -/
def ofText (text : List Char) : List Piece :=
  if text.isEmpty then [] else [.literal (Literal.escape text)]

/-- The pieces of what follows a place. -/
def all (search : Directive → Search) (place : Place) : List Piece :=
  match next? search place with
  | none => ofText place.rest
  | some (kind, hit) =>
    if 0 < hit.length ∧ place.rest ≠ [] then
      ofText (place.rest.take hit.skipped) ++ .directive kind (inner kind hit)
        :: all search (place.advance (hit.skipped + hit.length))
    else ofText place.rest
  termination_by place.rest.length
  decreasing_by
    have positive : 0 < place.rest.length := by
      rw [List.length_pos_iff]
      exact (by assumption : 0 < hit.length ∧ place.rest ≠ []).2
    simp only [Place.rest_advance, List.length_drop]
    omega

/-- The pieces of a template. -/
def ofTemplate (search : Directive → Search) (text : String) : List Piece :=
  all search (Place.start text.toList)

end Piece

end Stencil
