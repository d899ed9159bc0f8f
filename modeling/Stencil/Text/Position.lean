/-!
# Text — Positions

Lines and columns, both counted from one in characters.  A line ends at LF, CR, U+2028 or U+2029,
and CR LF ends it once: the CR of such a pair moves nothing.
-/

namespace Stencil.Text

/-- A line and a column, counted from one. -/
structure Position where
  line : Nat
  column : Nat
  deriving DecidableEq, Repr, Inhabited

/-- The position of the first character. -/
def Position.start : Position := ⟨1, 1⟩

/-- Whether a character ends a line. -/
def isLineEnd (c : Char) : Bool :=
  c == '\n' || c == '\r' || c == '\u2028' || c == '\u2029'

/-- The position after a character that `rest` follows. -/
def Position.after (p : Position) (c : Char) (rest : List Char) : Position :=
  if isLineEnd c then
    if c == '\r' && rest.head? == some '\n' then p else ⟨p.line + 1, 1⟩
  else ⟨p.line, p.column + 1⟩

/-- The position after `count` characters that end no line. -/
def Position.along (p : Position) (count : Nat) : Position :=
  ⟨p.line, p.column + count⟩

/-- A text that is being read: what is left of it and where that begins. -/
structure Cursor where
  rest : List Char
  position : Position

/-- The beginning of a text. -/
def Cursor.start (s : String) : Cursor :=
  ⟨s.toList, .start⟩

/-- The cursor past the first character `c`, with `rest` after it. -/
def Cursor.past (cursor : Cursor) (c : Char) (rest : List Char) : Cursor :=
  ⟨rest, cursor.position.after c rest⟩

/-- The cursor past `count` characters that end no line. -/
def Cursor.drop (cursor : Cursor) (count : Nat) : Cursor :=
  ⟨cursor.rest.drop count, cursor.position.along count⟩

end Stencil.Text
