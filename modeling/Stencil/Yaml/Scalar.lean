import Stencil.Number.Digits

/-!
# Yaml — Scalars

How the lines of a scalar become its text.  A scalar may go on over several lines: the blanks
around a line end are dropped, one line end becomes a space, and of several all but the first are
kept.
-/

namespace Stencil.Yaml
open Stencil

/-- Whether a character is a blank within a line. -/
def isBlank (c : Char) : Bool :=
  c == ' ' || c == '\t'

/-- Whether a character that may be missing is a blank, a line end or missing. -/
def isGap (c : Option Char) : Bool :=
  c.all fun c => isBlank c || c == '\n'

/-- Whether a character has a meaning inside brackets. -/
def isFlowMark (c : Char) : Bool :=
  c == ',' || c == '[' || c == ']' || c == '\x7b' || c == '\x7d'

/-- What stands for line ends between two lines of a scalar. -/
def folded (ends : Nat) : List Char :=
  if ends ≤ 1 then [' '] else List.replicate (ends - 1) '\n'

/-- Blanks and line ends at the front of a text: the blanks before the first line end, the number
of line ends, the number of blanks after the last, and the rest. -/
structure Gap where
  blanks : List Char
  ends : Nat
  indent : Nat
  rest : List Char

/-- Takes blanks and line ends off the front of a text. -/
def Gap.take (blanks : List Char) (ends indent : Nat) : List Char → Gap
  | [] => ⟨blanks.reverse, ends, indent, []⟩
  | c :: rest =>
    if c == '\n' then take blanks (ends + 1) 0 rest
    else if isBlank c then
      if ends = 0 then take (c :: blanks) 0 0 rest else take blanks ends (indent + 1) rest
    else ⟨blanks.reverse, ends, indent, c :: rest⟩

/-- What a gap inside a scalar contributes to its text. -/
def Gap.text (gap : Gap) : List Char :=
  if gap.ends = 0 then gap.blanks else folded gap.ends

/-! ### Plain scalars -/

/-- Whether a colon that `rest` follows ends a plain scalar. -/
def isColonMark (flow : Bool) (rest : List Char) : Bool :=
  isGap rest.head? || flow && rest.head?.any isFlowMark

/-- Splits off what a plain scalar has of a line up to the next blank. -/
def plainWord (flow : Bool) (done : List Char) : List Char → List Char × List Char
  | [] => (done.reverse, [])
  | c :: rest =>
    if isBlank c || c == '\n' || flow && isFlowMark c || c == ':' && isColonMark flow rest then
      (done.reverse, c :: rest)
    else plainWord flow (c :: done) rest

/-- Whether a plain scalar can begin with `c` before `rest`. -/
def startsPlain (flow : Bool) (c : Char) (rest : List Char) : Bool :=
  if c == '-' then !isGap rest.head?
  else if c == '?' || c == ':' then !flow && !isGap rest.head?
  else !(",[]\x7b\x7d#&*!|>'\"%@\x60".toList.contains c) && !isGap (some c)

/-- Reads the words of a plain scalar that follow the first.  Lines that go on stand at column
`least` or further right, except inside brackets. -/
def plainWords (flow : Bool) (least : Nat) : (bound : Nat) → List Char → List Char × List Char
  | 0, text => ([], text)
  | bound + 1, text =>
    let gap := Gap.take [] 0 0 text
    let (word, rest) := plainWord flow [] gap.rest
    if word.isEmpty || word.head? == some '#' || (!flow && 0 < gap.ends && gap.indent < least) then
      ([], text)
    else
      let (more, rest) := plainWords flow least bound rest
      (gap.text ++ word ++ more, rest)

/-- Reads a plain scalar. -/
def plainScalar (flow : Bool) (least : Nat) (text : List Char) : List Char × List Char :=
  let (word, rest) := plainWord flow [] text
  let (more, rest) := plainWords flow least rest.length rest
  (word ++ more, rest)

/-! ### Quoted scalars -/

/-- Reads a scalar in single quotes up to the closing one; a quote inside is written twice. -/
def singleQuoted : (bound : Nat) → List Char → List Char → Option (List Char × List Char)
  | 0, _, _ => none
  | _ + 1, _, [] => none
  | bound + 1, done, '\'' :: '\'' :: rest => singleQuoted bound ('\'' :: done) rest
  | _ + 1, done, '\'' :: rest => some (done.reverse, rest)
  | bound + 1, done, c :: rest =>
    if isBlank c || c == '\n' then
      let gap := Gap.take [] 0 0 (c :: rest)
      singleQuoted bound (gap.text.reverse ++ done) gap.rest
    else singleQuoted bound (c :: done) rest

/-- The characters of the one-letter escapes. -/
def letterEscapes : List (Char × Char) :=
  [('0', '\x00'), ('a', '\x07'), ('b', '\x08'), ('t', '\t'), ('\t', '\t'), ('n', '\n'),
   ('v', '\x0b'), ('f', '\x0c'), ('r', '\r'), ('e', '\x1b'), (' ', ' '), ('"', '"'), ('/', '/'),
   ('\\', '\\'), ('N', '\u0085'), ('_', '\u00a0'), ('L', '\u2028'), ('P', '\u2029')]

/-- How many digits follow the letter of an escape by code point. -/
def codePointWidth (c : Char) : Option Nat :=
  match c with
  | 'x' => some 2
  | 'u' => some 4
  | 'U' => some 8
  | _ => none

/-- Reads what follows a backslash: a letter, or the digits of a code point. -/
def escaped : List Char → Option (Char × List Char)
  | [] => none
  | c :: rest =>
    match letterEscapes.lookup c with
    | some character => some (character, rest)
    | none => do
      let width ← codePointWidth c
      let digits := rest.take width
      let code ← Number.value? 16 digits
      if digits.length = width ∧ code.isValidChar then some (Char.ofNat code, rest.drop width)
      else none

/-- Reads a scalar in double quotes up to the closing one.  A backslash at the end of a line joins
it to the next. -/
def doubleQuoted : (bound : Nat) → List Char → List Char → Option (List Char × List Char)
  | 0, _, _ => none
  | _ + 1, _, [] => none
  | _ + 1, done, '"' :: rest => some (done.reverse, rest)
  | bound + 1, done, '\\' :: '\n' :: rest =>
    let gap := Gap.take [] 1 0 rest
    let kept := if gap.ends ≤ 1 then [] else folded gap.ends
    doubleQuoted bound (kept.reverse ++ done) gap.rest
  | bound + 1, done, '\\' :: rest => do
    let (character, rest) ← escaped rest
    doubleQuoted bound (character :: done) rest
  | bound + 1, done, c :: rest =>
    if isBlank c || c == '\n' then
      let gap := Gap.take [] 0 0 (c :: rest)
      doubleQuoted bound (gap.text.reverse ++ done) gap.rest
    else doubleQuoted bound (c :: done) rest

/-! ### Block scalars -/

/-- What is kept of the line ends after a block scalar: one, none or all. -/
inductive Chomping where
  | clip
  | strip
  | keep
  deriving DecidableEq

/-- The beginning of a block scalar: whether its lines are folded, what is kept at its end, and the
indentation if it is given. -/
structure BlockHeader where
  fold : Bool
  chomping : Chomping
  indent : Option Nat

/-- Reads the marks behind the one that begins a block scalar. -/
def blockMarks (header : BlockHeader) : List Char → BlockHeader × List Char
  | [] => (header, [])
  | c :: rest =>
    if c == '-' then blockMarks { header with chomping := .strip } rest
    else if c == '+' then blockMarks { header with chomping := .keep } rest
    else if '1' ≤ c && c ≤ '9' then
      blockMarks { header with indent := Number.digitValue? 10 c } rest
    else (header, c :: rest)

/-- The lines of a text, each without its line end; `done` holds what is read of the first, last
character first. -/
def splitLines (done : List Char) : List Char → List (List Char)
  | [] => [done.reverse]
  | c :: rest =>
    if c == '\n' then done.reverse :: splitLines [] rest else splitLines (c :: done) rest

/-- The number of spaces at the front of a line. -/
def indentOf (line : List Char) : Nat :=
  (line.takeWhile (· == ' ')).length

/-- Whether a line has only spaces. -/
def isEmptyLine (line : List Char) : Bool :=
  line.all (· == ' ')

/-- The lines that belong to a block scalar: those that are empty or indented far enough. -/
def blockLines (indent : Nat) (lines : List (List Char)) : List (List Char) :=
  lines.takeWhile fun line => isEmptyLine line && line.length ≤ indent || indent ≤ indentOf line

/-- The text of folded lines.  A line end between two lines that begin with no blank becomes a
space, if no empty line is between them; `ends` counts the line ends since the line before, and
`more` tells whether that began with a blank. -/
def foldLines (first more : Bool) (ends : Nat) : List (List Char) → List Char
  | [] => []
  | line :: rest =>
    if line.isEmpty then foldLines first more (ends + 1) rest
    else
      let blank := line.head?.any isBlank
      let between :=
        if first || blank || more then List.replicate ends '\n' else folded ends
      between ++ line ++ foldLines false blank 1 rest

/-- The text of the lines of a block scalar, which may end in empty lines; the last line may lack
its line end. -/
def blockText (header : BlockHeader) (lines : List (List Char)) (ended : Bool) : List Char :=
  let content := (lines.reverse.dropWhile List.isEmpty).reverse
  let trailing := lines.length - content.length
  let body := if header.fold then foldLines true false 0 content else ['\n'].intercalate content
  let ending :=
    match header.chomping with
    | .strip => []
    | .clip => if content.isEmpty || !ended then [] else ['\n']
    | .keep =>
      if content.isEmpty || !ended then List.replicate trailing '\n'
      else List.replicate (trailing + 1) '\n'
  body ++ ending

/-- Reads a block scalar whose first mark has been passed and whose lines stand at column `least`
or further right.  The rest begins with the line end before the line that follows. -/
def blockScalar (fold : Bool) (least : Nat) (text : List Char) : Option (List Char × List Char) :=
  let (header, rest) := blockMarks ⟨fold, .clip, none⟩ text
  let rest := rest.dropWhile isBlank
  let rest := if rest.head? == some '#' then rest.dropWhile (· != '\n') else rest
  match rest with
  | [] => some ([], [])
  | '\n' :: rest =>
    let lines := splitLines [] rest
    let indent :=
      match header.indent with
      | some given => (least - 1) + given
      | none =>
        let found := (lines.find? fun line => !isEmptyLine line).map indentOf
        max (max least 1) (found.getD 0)
    let own := blockLines indent lines
    let after := lines.drop own.length
    let ended := !after.isEmpty || own.getLast?.any isEmptyLine
    let own := if after.isEmpty && ended then own.dropLast else own
    some (blockText header (own.map (List.drop indent)) ended,
      if after.isEmpty then [] else '\n' :: ['\n'].intercalate after)
  | _ => none

end Stencil.Yaml
