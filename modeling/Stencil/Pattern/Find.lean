import Stencil.Pattern.Tree

/-!
# Pattern — Finding

Where a pattern matches.  Of all matches the one that begins first is taken, and of those that
begin there the one that comes first when the alternatives of every choice and every repetition are
tried in order.

A matcher takes what is to come after as a function.  It recurs on the pattern, and a repetition
without an upper bound on the characters left, since a round after the required ones counts only if
it passed a character.
-/

namespace Stencil

/-! ### Places -/

/-- A place in a text: the character before it, if there is one, and what follows. -/
structure Place where
  before : Option Char
  rest : List Char
  deriving DecidableEq, Repr

namespace Place

/-- The beginning of a text. -/
def start (text : List Char) : Place := ⟨none, text⟩

/-- The place some characters further on. -/
def advance : Place → Nat → Place
  | place, 0 => place
  | ⟨before, []⟩, _ + 1 => ⟨before, []⟩
  | ⟨_, c :: rest⟩, count + 1 => advance ⟨some c, rest⟩ count

theorem rest_advance (place : Place) (count : Nat) :
    (place.advance count).rest = place.rest.drop count := by
  obtain ⟨before, rest⟩ := place
  induction count generalizing before rest with
  | zero => rfl
  | succ count ih =>
    cases rest with
    | nil => simp [advance]
    | cons c rest => simp [advance, ih]

end Place

/-! ### Assertions -/

namespace Assertion
open Text

/-- Whether an optional character is a word character. -/
def isWordAt (c : Option Char) : Bool :=
  c.any isWord

/-- Whether an assertion holds at a place. -/
def holds (a : Assertion) (place : Place) : Bool :=
  let after := place.rest.head?
  let wordBefore := isWordAt place.before
  let wordAfter := isWordAt after
  match a with
  | textStart => place.before.isNone
  | textEnd => after.isNone
  | lineStart => place.before.isNone || place.before == some '\n'
  | lineEnd => after.isNone || after == some '\n'
  | wordBoundary => wordBefore != wordAfter
  | noWordBoundary => wordBefore == wordAfter
  | wordStart => !wordBefore && wordAfter
  | wordEnd => wordBefore && !wordAfter
  | wordStartHalf => !wordBefore
  | wordEndHalf => !wordAfter

end Assertion

/-! ### Matching at a place -/

/-- A part of a text: so many characters at the front of `rest`. -/
structure Span where
  rest : List Char
  length : Nat
  deriving DecidableEq, Repr

/-- The characters of a span. -/
def Span.text (span : Span) : List Char :=
  span.rest.take span.length

/-- A match under way: where it has come to, how many characters it passed, and what each group
covers that was passed, the last one first. -/
structure Progress where
  place : Place
  passed : Nat
  groups : List (Nat × Span)
  deriving DecidableEq, Repr

/-- A match from one point of progress to another, with what is to come after it. -/
abbrev Matcher := (Progress → Option Progress) → Progress → Option Progress

/-- The first of two attempts if it succeeds, and otherwise the second; for a match that is not
greedy in the opposite order. -/
def prefer (greedy : Bool) (more stop : Unit → Option Progress) : Option Progress :=
  if greedy then
    match more () with
    | some p => some p
    | none => stop ()
  else
    match stop () with
    | some p => some p
    | none => more ()

namespace Matcher

/-- Matches a number of rounds. -/
def rounds (body : Matcher) : Nat → Matcher
  | 0 => fun next p => next p
  | count + 1 => fun next p => body (fun q => rounds body count next q) p

/-- Matches up to a number of rounds. -/
def upTo (body : Matcher) (greedy : Bool) : Nat → Matcher
  | 0 => fun next p => next p
  | count + 1 => fun next p =>
    prefer greedy (fun _ => body (fun q => upTo body greedy count next q) p) (fun _ => next p)

/-- Matches rounds that each pass a character; `left` bounds the characters left. -/
def onwards (body : Matcher) (greedy : Bool) (next : Progress → Option Progress) :
    (left : Nat) → Progress → Option Progress
  | 0, p => next p
  | left + 1, p =>
    prefer greedy
      (fun _ =>
        body (fun q => if p.passed < q.passed then onwards body greedy next left q else none) p)
      (fun _ => next p)

/-- Goes on after a round that has to be matched: with more rounds, unless the round passed no
character. -/
def afterRound (body : Matcher) (greedy : Bool) (next : Progress → Option Progress)
    (p q : Progress) : Option Progress :=
  if p.passed < q.passed then onwards body greedy next q.place.rest.length q else next q

/-- Matches one round or more. -/
def oneOrMore (body : Matcher) (greedy : Bool) : Matcher := fun next p =>
  body (fun q => afterRound body greedy next p q) p

/-- Matches any number of rounds. -/
def many (body : Matcher) (nullable greedy : Bool) : Matcher := fun next p =>
  if nullable then prefer greedy (fun _ => oneOrMore body greedy next p) (fun _ => next p)
  else onwards body greedy next p.place.rest.length p

end Matcher

namespace Pattern

/-- Matches a pattern. -/
def run : Pattern → Matcher
  | empty => fun next p => next p
  | char s => fun next p =>
    match p.place.rest with
    | [] => none
    | c :: rest => if s.has c then next ⟨⟨Option.some c, rest⟩, p.passed + 1, p.groups⟩ else none
  | assertion a => fun next p => if a.holds p.place then next p else none
  | group index body => fun next p =>
    body.run (fun q =>
      next { q with groups := (index, ⟨p.place.rest, q.passed - p.passed⟩) :: q.groups }) p
  | sequence first second => fun next p => first.run (fun q => second.run next q) p
  | choice first second => fun next p =>
    prefer true (fun _ => first.run next p) (fun _ => second.run next p)
  | repetition body least most greedy =>
    match most, least with
    | none, 0 => Matcher.many body.run body.nullable greedy
    | none, least + 1 => fun next p =>
      Matcher.rounds body.run least (fun q => Matcher.oneOrMore body.run greedy next q) p
    | some most, least => fun next p =>
      Matcher.rounds body.run least (fun q => Matcher.upTo body.run greedy (most - least) next q) p

end Pattern

/-! ### Searching -/

/-- A match that was found: how many characters lie before it, how many it covers, and what its
groups cover. -/
structure Hit where
  skipped : Nat
  length : Nat
  groups : List (Nat × Span)
  deriving DecidableEq, Repr

/-- The text that a group covers. -/
def Hit.group? (hit : Hit) (index : Nat) : Option (List Char) :=
  (hit.groups.lookup index).map Span.text

namespace Pattern

/-- The match that begins at a place. -/
def matchAt (pattern : Pattern) (place : Place) : Option Progress :=
  pattern.run some ⟨place, 0, []⟩

/-- The first match in what follows, `skipped` characters having been passed. -/
def findFrom (pattern : Pattern) (skipped : Nat) (before : Option Char) : List Char → Option Hit
  | [] => (pattern.matchAt ⟨before, []⟩).map fun p => ⟨skipped, p.passed, p.groups⟩
  | c :: rest =>
    match pattern.matchAt ⟨before, c :: rest⟩ with
    | some p => some ⟨skipped, p.passed, p.groups⟩
    | none => findFrom pattern (skipped + 1) (some c) rest

/-- The first match at or after a place. -/
def find? (pattern : Pattern) (place : Place) : Option Hit :=
  pattern.findFrom 0 place.before place.rest

end Pattern

end Stencil
