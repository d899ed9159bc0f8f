import Stencil.Text.Blank
import Stencil.Text.CaseFold
import Stencil.Text.Numeral
import Stencil.Text.Word

/-!
# Pattern — Sets of characters

What one place of a pattern can match: single characters, ranges, the classes of digits, blanks and
word characters, and what the set operations make of them.
-/

namespace Stencil

/-- A set of characters. -/
inductive CharSet where
  | nothing
  | all
  | one (c : Char)
  | range (low high : Char)
  | digit
  | blank
  | word
  | complement (s : CharSet)
  | anyCase (s : CharSet)
  | union (s t : CharSet)
  | intersection (s t : CharSet)
  | difference (s t : CharSet)
  | symmetricDifference (s t : CharSet)
  deriving DecidableEq, Repr

namespace CharSet
open Text

/-- Whether a set has a character.  A set in any case has it if the set has a variant of it. -/
def has : CharSet → Char → Bool
  | nothing, _ => false
  | all, _ => true
  | one d, c => c == d
  | range low high, c => low ≤ c && c ≤ high
  | digit, c => isDecimalDigit c
  | blank, c => isBlank c
  | word, c => isWord c
  | complement s, c => !s.has c
  | anyCase s, c => (caseVariants c).any s.has
  | union s t, c => s.has c || t.has c
  | intersection s t, c => s.has c && t.has c
  | difference s t, c => s.has c && !t.has c
  | symmetricDifference s t, c => s.has c != t.has c

/-- The complement, if asked for. -/
def complementIf (negated : Bool) (s : CharSet) : CharSet :=
  if negated then s.complement else s

/-- The set in any case, if asked for. -/
def anyCaseIf (ignoreCase : Bool) (s : CharSet) : CharSet :=
  if ignoreCase then s.anyCase else s

/-- The union of several sets. -/
def unions (sets : List CharSet) : CharSet :=
  sets.foldl union nothing

/-- Lower-case letters from a to z. -/
def asciiLower : CharSet := range 'a' 'z'

/-- Upper-case letters from A to Z. -/
def asciiUpper : CharSet := range 'A' 'Z'

/-- Digits from 0 to 9. -/
def asciiDigit : CharSet := range '0' '9'

/-- The class that is written `[:name:]`.  These classes hold characters below U+0080 only. -/
def named? (name : String) : Option CharSet :=
  match name with
  | "alnum" => some (unions [asciiDigit, asciiUpper, asciiLower])
  | "alpha" => some (unions [asciiUpper, asciiLower])
  | "ascii" => some (range '\x00' '\x7f')
  | "blank" => some (unions [one '\t', one ' '])
  | "cntrl" => some (unions [range '\x00' '\x1f', one '\x7f'])
  | "digit" => some asciiDigit
  | "graph" => some (range '!' '~')
  | "lower" => some asciiLower
  | "print" => some (range ' ' '~')
  | "punct" => some (unions [range '!' '/', range ':' '@', range '[' '\x60', range '\x7b' '~'])
  | "space" => some (unions [range '\t' '\r', one ' '])
  | "upper" => some asciiUpper
  | "word" => some (unions [asciiDigit, asciiUpper, asciiLower, one '_'])
  | "xdigit" => some (unions [asciiDigit, range 'A' 'F', range 'a' 'f'])
  | _ => none

end CharSet

end Stencil
