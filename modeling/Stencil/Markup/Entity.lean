/-!
# Markup — Entities

The six characters that mean something to a reader of markup, and the entities that stand for them
in text.
-/

namespace Stencil.Markup

/-- The characters to escape, each with its entity. -/
def entities : List (Char × String) :=
  [('&', "&amp;"), ('<', "&lt;"), ('>', "&gt;"), ('"', "&quot;"), ('\'', "&#x27;"),
   ('\x60', "&#x60;")]

/-- The entity of a character that has one. -/
def entity? (c : Char) : Option String :=
  entities.lookup c

/-- The characters that stand for one character in escaped text. -/
def escapeChar (c : Char) : List Char :=
  match entity? c with
  | some entity => entity.toList
  | none => [c]

/-- A text with every character that has an entity replaced by it. -/
def escape (s : String) : String :=
  String.ofList (s.toList.flatMap escapeChar)

/-- The entity at the front of a text, and its character. -/
def entityAt? (cs : List Char) : Option (Char × String) :=
  entities.find? (fun (_, entity) => entity.toList.isPrefixOf cs)

/-- Entities replaced by their characters from left to right; `skip` characters of an entity that
was replaced are still to pass.  What is no entity stays. -/
def unescapeChars : (skip : Nat) → List Char → List Char
  | _, [] => []
  | skip + 1, _ :: rest => unescapeChars skip rest
  | 0, c :: rest =>
    match entityAt? (c :: rest) with
    | some (character, entity) => character :: unescapeChars (entity.length - 1) rest
    | none => c :: unescapeChars 0 rest

/-- A text with the six entities replaced by their characters. -/
def unescape (s : String) : String :=
  String.ofList (unescapeChars 0 s.toList)

end Stencil.Markup
