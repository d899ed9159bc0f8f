import Stencil.Number.Digits
import Stencil.Pattern.Tree
import Stencil.Text.Letter

/-!
# Pattern — Reading patterns

The written form of patterns.

* A brace that opens is always the beginning of a count, and a count, `?`, `*` or `+` must have
  something to repeat.  Brackets and braces that close stand for themselves outside a class.
* Every punctuation mark can be escaped except `<` and `>`, which are assertions when they are; of
  letters and digits only those that mean something can be.
* Groups may be named, each name once.  The flags `i`, `m`, `s` and `U` can be set and unset for a
  group or for what is left of one; `u`, which is always set, can be set.
* There are no back-references, no looking around and no property classes.

The recursion takes one from a bound at each call.  A call that passes no character is followed by
one that does, at most three calls later.
-/

namespace Stencil.Pattern
open Stencil.Text

/-- The flags in force. -/
structure Flags where
  ignoreCase : Bool
  multiLine : Bool
  dotAll : Bool
  swapGreed : Bool

/-- No flags. -/
def Flags.plain : Flags := ⟨false, false, false, false⟩

/-- Sets or unsets a flag. -/
def Flags.put (flags : Flags) (letter : Char) (value : Bool) : Option Flags :=
  match letter with
  | 'i' => some { flags with ignoreCase := value }
  | 'm' => some { flags with multiLine := value }
  | 's' => some { flags with dotAll := value }
  | 'U' => some { flags with swapGreed := value }
  | 'u' => if value then some flags else none
  | _ => none

/-- Sets and unsets flags as written: each letter once, and after one hyphen at most, which letters
follow, those that are unset. -/
def Flags.putAll (flags : Flags) (letters : List Char) : Option Flags :=
  let on := letters.takeWhile (· != '-')
  let off := letters.drop (on.length + 1)
  if (on ++ off).Nodup && (off.isEmpty → on.length = letters.length) then do
    let flags ← on.foldlM (fun flags letter => Flags.put flags letter true) flags
    off.foldlM (fun flags letter => Flags.put flags letter false) flags
  else none

/-- What has been read of a pattern: what is left, the flags in force, the number of groups opened
and their names. -/
structure Reading where
  rest : List Char
  flags : Flags
  groups : Nat
  names : List String

/-- Reads from the front of a pattern, or finds that it is none. -/
abbrev Reader := StateT Reading Option

namespace Reader

/-- The pattern is none. -/
def refuse {α : Type} : Reader α :=
  fun _ => none

/-- The next character. -/
def peek : Reader (Option Char) := do
  pure (← get).rest.head?

/-- Passes characters. -/
def skip (count : Nat) : Reader Unit :=
  modify fun r => { r with rest := r.rest.drop count }

/-- Passes the given characters if they are next. -/
def accept (text : String) : Reader Bool := do
  if text.toList.isPrefixOf (← get).rest then do
    skip text.length
    pure true
  else pure false

/-- Passes the given characters, which must be next. -/
def expect (text : String) : Reader Unit := do
  if ← accept text then pure () else refuse

/-- Takes a character, which must be there. -/
def take : Reader Char := do
  match (← get).rest with
  | [] => refuse
  | c :: rest => do
    modify fun r => { r with rest := rest }
    pure c

/-- Takes characters for as long as a test holds. -/
def takeWhile (test : Char → Bool) : Reader (List Char) := do
  let taken := (← get).rest.takeWhile test
  skip taken.length
  pure taken

/-! ### Escapes -/

/-- What an escape stands for. -/
inductive Escaped where
  | character (c : Char)
  | set (s : CharSet)
  | assertion (a : Assertion)

/-- The character with a code point. -/
def characterOf (code : Nat) : Reader Char :=
  if code.isValidChar then pure (Char.ofNat code) else refuse

/-- Reads the digits of a character that is written by its code point. -/
def codePoint (width : Nat) : Reader Char := do
  if ← accept "\x7b" then do
    let digits ← takeWhile (· != '\x7d')
    expect "\x7d"
    match Number.value? 16 digits with
    | some code => characterOf code
    | none => refuse
  else do
    let digits := (← get).rest.take width
    skip width
    if digits.length = width then
      match Number.value? 16 digits with
      | some code => characterOf code
      | none => refuse
    else refuse

/-- Whether a character can stand in the name of an assertion. -/
def isAssertionNameChar (c : Char) : Bool :=
  c.isAlpha || c == '-'

/-- Reads what may follow `\b`: the name in braces of a special assertion. -/
def boundary : Reader Assertion := do
  match (← get).rest with
  | '\x7b' :: c :: _ =>
    if isAssertionNameChar c then do
      skip 1
      let name ← takeWhile isAssertionNameChar
      expect "\x7d"
      match String.ofList name with
      | "start" => pure .wordStart
      | "end" => pure .wordEnd
      | "start-half" => pure .wordStartHalf
      | "end-half" => pure .wordEndHalf
      | _ => refuse
    else pure .wordBoundary
  | ['\x7b'] => refuse
  | _ => pure .wordBoundary

/-- Reads what follows a backslash. -/
def escape : Reader Escaped := do
  let c ← take
  match c with
  | 'd' => pure (.set .digit)
  | 'D' => pure (.set (.complement .digit))
  | 's' => pure (.set .blank)
  | 'S' => pure (.set (.complement .blank))
  | 'w' => pure (.set .word)
  | 'W' => pure (.set (.complement .word))
  | 'x' => .character <$> codePoint 2
  | 'u' => .character <$> codePoint 4
  | 'U' => .character <$> codePoint 8
  | 'a' => pure (.character '\x07')
  | 'f' => pure (.character '\x0c')
  | 't' => pure (.character '\t')
  | 'n' => pure (.character '\n')
  | 'r' => pure (.character '\r')
  | 'v' => pure (.character '\x0b')
  | 'A' => pure (.assertion .textStart)
  | 'z' => pure (.assertion .textEnd)
  | 'b' => .assertion <$> boundary
  | 'B' => pure (.assertion .noWordBoundary)
  | '<' => pure (.assertion .wordStart)
  | '>' => pure (.assertion .wordEnd)
  | c => if c.toNat < 0x80 && !c.isAlphanum then pure (.character c) else refuse

/-! ### Classes -/

/-- The operators between sets. -/
inductive SetOp where
  | intersection
  | difference
  | symmetricDifference

/-- The operator that is next in a class. -/
def setOp : Reader (Option SetOp) := do
  if ← accept "&&" then pure (some .intersection)
  else if ← accept "--" then pure (some .difference)
  else if ← accept "~~" then pure (some .symmetricDifference)
  else pure none

/-- The set read so far in a class: the operation that waits for its right side, and the union of
the items since. -/
structure ClassSoFar where
  waiting : Option (CharSet × SetOp)
  items : CharSet

/-- Adds a set to the items of a class. -/
def ClassSoFar.add (soFar : ClassSoFar) (s : CharSet) : ClassSoFar :=
  { soFar with items := .union soFar.items s }

/-- The set, with the operation done that waits. -/
def ClassSoFar.done (soFar : ClassSoFar) (ignoreCase : Bool) : CharSet :=
  match soFar.waiting with
  | none => soFar.items
  | some (left, op) =>
    let left := left.anyCaseIf ignoreCase
    let right := soFar.items.anyCaseIf ignoreCase
    match op with
    | .intersection => .intersection left right
    | .difference => .difference left right
    | .symmetricDifference => .symmetricDifference left right

/-- Reads a character or an escape of a class. -/
def classItem : Reader Escaped := do
  let c ← take
  if c == '\\' then escape else pure (.character c)

/-- Reads an item of a class and, if it is the beginning of a range, the end of the range. -/
def classRange : Reader CharSet := do
  let item ← classItem
  let range :=
    match (← get).rest with
    | '-' :: c :: _ => c != ']' && c != '-'
    | ['-'] => true
    | _ => false
  if range then do
    skip 1
    let last ← classItem
    match item, last with
    | .character low, .character high => if low ≤ high then pure (.range low high) else refuse
    | _, _ => refuse
  else
    match item with
    | .character c => pure (.one c)
    | .set s => pure s
    | .assertion _ => refuse

/-- Reads a named class such as `[:alpha:]` if one is next. -/
def namedClass : Reader (Option CharSet) := do
  let r ← get
  match r.rest with
  | '[' :: ':' :: rest =>
    let (negated, rest) :=
      match rest with
      | '^' :: rest => (true, rest)
      | rest => (false, rest)
    let name := rest.takeWhile (· != ':')
    match CharSet.named? (String.ofList name), rest.drop name.length with
    | some s, ':' :: ']' :: rest => do
      set { r with rest := rest }
      pure (some ((s.anyCaseIf r.flags.ignoreCase).complementIf negated))
    | _, _ => pure none
  | _ => pure none

/-- Reads the hyphens at the beginning of a class, which stand for themselves, and then a closing
bracket, which stands for itself if nothing is before it. -/
def classFront : Reader CharSet := do
  let hyphens ← takeWhile (· == '-')
  if !hyphens.isEmpty then pure (.one '-')
  else if ← accept "]" then pure (.one ']')
  else pure .nothing

mutual

/-- Reads a class whose opening bracket has been passed. -/
def charClass : (bound : Nat) → Reader CharSet
  | 0 => refuse
  | bound + 1 => do
    let negated ← accept "^"
    let front ← classFront
    let s ← classRest bound ⟨none, front⟩
    let ignoreCase := (← get).flags.ignoreCase
    pure ((s.anyCaseIf ignoreCase).complementIf negated)

/-- Reads the items of a class up to its closing bracket. -/
def classRest : (bound : Nat) → ClassSoFar → Reader CharSet
  | 0, _ => refuse
  | bound + 1, soFar => do
    let ignoreCase := (← get).flags.ignoreCase
    if ← accept "]" then pure (soFar.done ignoreCase)
    else
      match ← namedClass with
      | some s => classRest bound (soFar.add s)
      | none => do
        if ← accept "[" then do
          let s ← charClass bound
          classRest bound (soFar.add s)
        else
          match ← setOp with
          | some op => classRest bound ⟨some (soFar.done ignoreCase, op), .nothing⟩
          | none => do
            let s ← classRange
            classRest bound (soFar.add s)

end

/-! ### Groups -/

/-- Whether a name of a group can begin with a character. -/
def isGroupNameStart (c : Char) : Bool :=
  c == '_' || isLetter c

/-- Whether a name of a group can go on with a character. -/
def isGroupNamePart (c : Char) : Bool :=
  c == '_' || c == '.' || c == '[' || c == ']' || isLetter c || isNumeral c

/-- Reads the name of a group, which must be a new one, and the bracket after it. -/
def groupName : Reader Unit := do
  let name ← takeWhile (· != '>')
  expect ">"
  match name with
  | [] => refuse
  | first :: rest => do
    let name := String.ofList name
    if isGroupNameStart first && rest.all isGroupNamePart && !(← get).names.contains name then
      modify fun r => { r with names := name :: r.names }
    else refuse

/-- The number of a group that is opened. -/
def openGroup : Reader Nat :=
  modifyGet fun r => (r.groups + 1, { r with groups := r.groups + 1 })

/-- What an opening parenthesis begins. -/
inductive Opening where
  | group (index : Nat)
  | plain
  | flags

/-- Reads what follows an opening parenthesis up to the body of the group; flags that are set there
are in force. -/
def opening : Reader Opening := do
  if (← accept "?P<") || (← accept "?<") then do
    let next ← peek
    if next == some '=' || next == some '!' then refuse
    else do
      let index ← openGroup
      groupName
      pure (.group index)
  else if ← accept "?" then do
    let letters ← takeWhile fun c => c != ':' && c != ')'
    match (← get).flags.putAll letters with
    | none => refuse
    | some flags => do
      modify fun r => { r with flags := flags }
      let c ← take
      if c == ':' then pure .plain
      else if letters.isEmpty then refuse
      else pure .flags
  else .group <$> openGroup

/-! ### Repetitions -/

/-- Reads the number of a count, with blanks around it. -/
def countNumber : Reader Nat := do
  let _ ← takeWhile isBlank
  let digits ← takeWhile Char.isDigit
  let _ ← takeWhile isBlank
  match Number.value? 10 digits with
  | some n => if n < UInt32.size then pure n else refuse
  | none => refuse

/-- Reads a count whose opening brace has been passed. -/
def count : Reader (Nat × Option Nat) := do
  let least ← countNumber
  if ← accept "," then do
    if ← accept "\x7d" then pure (least, none)
    else do
      let most ← countNumber
      expect "\x7d"
      if least ≤ most then pure (least, some most) else refuse
  else do
    expect "\x7d"
    pure (least, some least)

/-- Reads how often something is repeated, if that is next. -/
def repetition : Reader (Option (Nat × Option Nat)) := do
  if ← accept "?" then pure (some (0, some 1))
  else if ← accept "*" then pure (some (0, none))
  else if ← accept "+" then pure (some (1, none))
  else if ← accept "\x7b" then some <$> count
  else pure none

/-- Repeats the item read last, which must be there and must not be a setting of flags. -/
def repeatLast (done : List (Option Pattern)) (least : Nat) (most : Option Nat) :
    Reader (List (Option Pattern)) := do
  let lazy ← accept "?"
  match done with
  | some body :: before => do
    let greedy := lazy == (← get).flags.swapGreed
    pure (some (.repetition body least most greedy) :: before)
  | _ => refuse

/-! ### Patterns -/

/-- The pattern of an escape. -/
def Escaped.pattern (ignoreCase : Bool) : Escaped → Pattern
  | .character c => .char ((CharSet.one c).anyCaseIf ignoreCase)
  | .set s => .char s
  | .assertion a => .assertion a

/-- Reads a pattern of one character. -/
def single : Reader Pattern := do
  let c ← take
  let flags := (← get).flags
  match c with
  | '\\' => Escaped.pattern flags.ignoreCase <$> escape
  | '.' => pure (.char (if flags.dotAll then .all else .complement (.one '\n')))
  | '^' => pure (.assertion (if flags.multiLine then .lineStart else .textStart))
  | '$' => pure (.assertion (if flags.multiLine then .lineEnd else .textEnd))
  | c => pure (.char ((CharSet.one c).anyCaseIf flags.ignoreCase))

/-- Items in sequence, the last one first. -/
def inSequence (done : List (Option Pattern)) : Pattern :=
  match done.filterMap id with
  | [] => .empty
  | last :: before => before.foldl (fun after item => .sequence item after) last

mutual

/-- Reads alternatives up to the end of the group they stand in. -/
def alternatives : (bound : Nat) → Reader Pattern
  | 0 => refuse
  | bound + 1 => do
    let first ← items bound []
    if ← accept "|" then do
      let second ← alternatives bound
      pure (.choice first second)
    else pure first

/-- Reads the items of an alternative; `done` holds those before, the last one first. -/
def items : (bound : Nat) → List (Option Pattern) → Reader Pattern
  | 0, _ => refuse
  | bound + 1, done => do
    match ← peek with
    | none => pure (inSequence done)
    | some c =>
      if c == ')' || c == '|' then pure (inSequence done)
      else if c == '(' then do
        let item ← parenthesis bound
        items bound (item :: done)
      else if c == '[' then do
        skip 1
        let s ← charClass bound
        items bound (some (.char s) :: done)
      else
        match ← repetition with
        | some (least, most) => do
          let done ← repeatLast done least most
          items bound done
        | none => do
          let item ← single
          items bound (some item :: done)

/-- Reads a group or a setting of flags, of which nothing is left in the pattern. -/
def parenthesis : (bound : Nat) → Reader (Option Pattern)
  | 0 => refuse
  | bound + 1 => do
    skip 1
    let outside := (← get).flags
    match ← opening with
    | .flags => pure none
    | .plain => do
      let body ← alternatives bound
      expect ")"
      modify fun r => { r with flags := outside }
      pure (some body)
    | .group index => do
      let body ← alternatives bound
      expect ")"
      modify fun r => { r with flags := outside }
      pure (some (.group index body))

end

end Reader

/-- Reads a pattern. -/
def read? (source : String) : Option Pattern := do
  let (pattern, reading) ← (Reader.alternatives (3 * source.length + 3)).run
    ⟨source.toList, .plain, 0, []⟩
  if reading.rest.isEmpty then some pattern else none

end Stencil.Pattern
