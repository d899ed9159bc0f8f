/-!
# Text — Searching in text

The place of one text in another, cutting at a separator, and repetition, all on characters.
-/

namespace Stencil.Text

/-- The least index at which `part` stands. -/
def indexOf? (part : List Char) : List Char → Option Nat
  | [] => if part.isEmpty then some 0 else none
  | c :: rest =>
    if part.isPrefixOf (c :: rest) then some 0 else (indexOf? part rest).map (· + 1)

/-- The pieces between the occurrences of a separator, taken from the left without overlap.  `skip`
characters of the separator found last are still to pass, and `piece` holds the piece begun, last
character first. -/
def cut (separator : List Char) (skip : Nat) (piece : List Char) : List Char → List (List Char)
  | [] => [piece.reverse]
  | c :: rest =>
    match skip with
    | skip + 1 => cut separator skip piece rest
    | 0 =>
      if separator.isPrefixOf (c :: rest) then
        piece.reverse :: cut separator (separator.length - 1) [] rest
      else cut separator 0 (c :: piece) rest

/-- The pieces of a text between the occurrences of a separator.  An empty separator cuts between
all characters. -/
def split (separator text : List Char) : List (List Char) :=
  if separator.isEmpty then text.map ([·]) else cut separator 0 [] text

/-- A text repeated. -/
def repeatText (s : String) (count : Nat) : String :=
  if s.isEmpty then "" else Nat.repeat (· ++ s) count ""

end Stencil.Text
