import Stencil.Json.Document
import Stencil.Json.Numeral

/-!
# Json — Reading documents

A reader of the JSON grammar, which tells three ways to fail apart: the text is malformed, it ends
too early, or it is well formed and not what was expected.  Arrays and objects may stand inside one
another up to 127 levels, and the recursion ends because each level takes one of these.
-/

namespace Stencil.Json
open Stencil

/-- Why a text could not be read. -/
inductive Failure where
  | malformed
  | misfit
  | ended
  deriving DecidableEq, Repr

/-- Reads from the front of a text. -/
abbrev Reader := StateT (List Char) (Except Failure)

namespace Reader

/-- Whether a character is blank between tokens. -/
def isGap (c : Char) : Bool :=
  c == ' ' || c == '\n' || c == '\t' || c == '\r'

/-- Passes over blanks and looks at the next character. -/
def peek : Reader (Option Char) := do
  let rest := (← get).dropWhile isGap
  set rest
  pure rest.head?

/-- Looks at the character directly at the front. -/
def here : Reader (Option Char) := do
  pure (← get).head?

/-- Passes one character. -/
def skip : Reader Unit :=
  modify List.tail

/-- Passes the given characters, which must be next. -/
def expectAll : List Char → Reader Unit
  | [] => pure ()
  | c :: rest => do
    match ← here with
    | none => throw .ended
    | some d =>
      if d == c then do
        skip
        expectAll rest
      else throw .malformed

/-! ### Strings -/

/-- Reads four hexadecimal digits. -/
def fourHex : Reader Nat := do
  let rest ← get
  let digits := rest.take 4
  -- what is left is measured in bytes
  if (String.ofList digits).utf8ByteSize < 4 then throw .ended
  else
    match Number.value? 16 digits with
    | some code =>
      if digits.length = 4 then do
        set (rest.drop 4)
        pure code
      else throw .malformed
    | none => throw .malformed

/-- Passes a character that must be next within a string. -/
def expectWithin (c : Char) : Reader Unit := do
  match ← here with
  | none => throw .ended
  | some d => if d == c then skip else throw .malformed

/-- Reads the digits of `\u`, and the second half of a surrogate pair if the first is one. -/
def unicodeEscape : Reader Char := do
  let code ← fourHex
  if 0xDC00 ≤ code ∧ code ≤ 0xDFFF then throw .malformed
  else if code < 0xD800 ∨ 0xDBFF < code then pure (Char.ofNat code)
  else do
    expectWithin '\\'
    expectWithin 'u'
    let low ← fourHex
    if low < 0xDC00 ∨ 0xDFFF < low then throw .malformed
    else pure (Char.ofNat (0x10000 + (code - 0xD800) * 0x400 + (low - 0xDC00)))

/-- Reads what follows a backslash. -/
def escape : Reader Char := do
  match ← here with
  | none => throw .ended
  | some c => do
    skip
    match c with
    | '"' => pure '"'
    | '\\' => pure '\\'
    | '/' => pure '/'
    | 'b' => pure '\x08'
    | 'f' => pure '\x0c'
    | 'n' => pure '\n'
    | 'r' => pure '\r'
    | 't' => pure '\t'
    | 'u' => unicodeEscape
    | _ => throw .malformed

/-- Reads up to the closing quote; `done` holds the characters so far, last one first. -/
def stringRest : (bound : Nat) → List Char → Reader String
  | 0, _ => throw .ended
  | bound + 1, done => do
    match ← here with
    | none => throw .ended
    | some c => do
      skip
      if c == '"' then pure (String.ofList done.reverse)
      else if c == '\\' then do
        let character ← escape
        stringRest bound (character :: done)
      else if c.toNat < 0x20 then throw .malformed
      else stringRest bound (c :: done)

/-- Reads a string whose opening quote is next. -/
def string : Reader String := do
  skip
  let rest ← get
  stringRest (rest.length + 1) []

/-! ### Numbers -/

/-- Takes digits off the front. -/
def digits : Reader (List Char) := do
  let (taken, rest) := Number.spanDigits (← get)
  set rest
  pure taken

/-- Takes digits, of which there must be one. -/
def someDigits : Reader (List Char) := do
  let taken ← digits
  if taken.isEmpty then
    match ← here with
    | none => throw .ended
    | some _ => throw .malformed
  else pure taken

/-- Reads the digits before the point, which begin with a zero only if that is all. -/
def wholeDigits : Reader (List Char) := do
  let taken ← someDigits
  match taken with
  | '0' :: _ :: _ => throw .malformed
  | _ => pure taken

/-- Reads the fraction, if a point is next. -/
def fraction : Reader (List Char) := do
  match ← here with
  | some '.' => do
    skip
    someDigits
  | _ => pure []

/-- Reads the exponent and its sign, if its mark is next. -/
def exponent : Reader (Bool × List Char) := do
  match ← here with
  | some c =>
    if c == 'e' || c == 'E' then do
      skip
      match ← here with
      | some '-' => do
        skip
        let taken ← someDigits
        pure (true, taken)
      | some '+' => do
        skip
        let taken ← someDigits
        pure (false, taken)
      | _ => do
        let taken ← someDigits
        pure (false, taken)
    else pure (false, [])
  | none => pure (false, [])

/-- Reads a numeral. -/
def numeral : Reader Numeral := do
  let negative := (← here) == some '-'
  if negative then skip
  let whole ← wholeDigits
  let fraction ← fraction
  let (exponentNegative, exponent) ← exponent
  pure ⟨negative, whole, fraction, exponentNegative, exponent⟩

/-- Reads a number by the given way to its value. -/
def number (toFloat : Numeral → Option Float) : Reader Float := do
  let n ← numeral
  match toFloat n with
  | some x => pure x
  | none => throw .malformed

/-! ### Arrays and objects -/

/-- Moves to the next element of an array, if there is one. -/
def nextElement (first : Bool) : Reader Bool := do
  match ← peek with
  | none => throw .ended
  | some ']' => pure false
  | some c =>
    if first then pure true
    else if c == ',' then do
      skip
      match ← peek with
      | some ']' => throw .malformed
      | none => throw .ended
      | some _ => pure true
    else throw .malformed

/-- Passes the end of an array. -/
def closeArray : Reader Unit := do
  match ← peek with
  | some ']' => skip
  | some _ => throw .malformed
  | none => throw .ended

/-- Moves to the next key of an object and reads it, if there is one. -/
def nextKey (first : Bool) : Reader (Option String) := do
  let next ← peek
  let next ←
    match next with
    | none => throw .ended
    | some c =>
      if c == '\x7d' then pure none
      else if first then pure (some c)
      else if c == ',' then do
        skip
        match ← peek with
        | none => throw .ended
        | some d => if d == '\x7d' then throw .malformed else pure (some d)
      else throw .malformed
  match next with
  | none => pure none
  | some c =>
    if c == '"' then do
      let key ← string
      pure (some key)
    else throw .malformed

/-- Passes the colon after a key. -/
def colon : Reader Unit := do
  match ← peek with
  | some ':' => skip
  | some _ => throw .malformed
  | none => throw .ended

/-- Reads elements up to the end of an array, which is left. -/
def elements (element : Reader Document) : (bound : Nat) → Bool → Reader (List Document)
  | 0, _ => pure []
  | bound + 1, first => do
    if ← nextElement first then do
      let item ← element
      let items ← elements element bound false
      pure (item :: items)
    else pure []

/-- Reads members up to the end of an object, which is left, and adds them to those before. -/
def members (element : Reader Document) :
    (bound : Nat) → Bool → List (String × Document) → Reader (List (String × Document))
  | 0, _, done => pure done
  | bound + 1, first, done => do
    match ← nextKey first with
    | some key => do
      colon
      let item ← element
      members element bound false (putMember done key item)
    | none => pure done

/-- Reads a value that is neither an array nor an object and begins with `c`. -/
def scalar (toFloat : Numeral → Option Float) (c : Char) : Reader Document :=
  match c with
  | 'n' => do
    expectAll "null".toList
    pure .null
  | 't' => do
    expectAll "true".toList
    pure (.bool true)
  | 'f' => do
    expectAll "false".toList
    pure (.bool false)
  | '"' => do
    let s ← string
    pure (.string s)
  | c =>
    if c == '-' || c.isDigit then do
      let x ← number toFloat
      pure (.number x)
    else throw .malformed

/-- Reads a value with at most `room` levels of arrays and objects. -/
def value (toFloat : Numeral → Option Float) (bound : Nat) : (room : Nat) → Reader Document
  | 0 => do
    match ← peek with
    | none => throw .ended
    | some c => scalar toFloat c
  | room + 1 => do
    match ← peek with
    | none => throw .ended
    | some c =>
      if c == '[' then do
        skip
        let items ← elements (value toFloat bound room) bound true
        skip
        pure (.array items)
      else if c == '\x7b' then do
        skip
        let all ← members (value toFloat bound room) bound true []
        skip
        pure (.object all)
      else scalar toFloat c

/-- Requires that nothing but blanks is left. -/
def finish : Reader Unit := do
  match ← peek with
  | none => pure ()
  | some _ => throw .malformed

/-- The most levels of arrays and objects. -/
def maxLevels : Nat := 127

/-- Runs a reader over all of a text. -/
def runOn {α : Type} (reader : Reader α) (source : String) : Except Failure α := do
  let (result, rest) ← reader.run source.toList
  let _ ← finish.run rest
  pure result

end Reader

/-- Reads a document, with numbers read the given way. -/
def Document.read (toFloat : Numeral → Option Float) (source : String) : Except Failure Document :=
  Reader.runOn (Reader.value toFloat (source.length + 1) Reader.maxLevels) source

end Stencil.Json
