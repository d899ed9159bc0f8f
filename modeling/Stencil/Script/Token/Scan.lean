import Stencil.Script.ParseError
import Stencil.Number.Reading
import Stencil.Text.Blank

/-!
# Script — Reading tokens

`tokens` cuts a text into tokens and ends the list with one `stop`.  Between tokens stand blanks
and comments, which leave no trace but the mark that a line ended there.  The longest punctuator
wins.  A string decodes its escapes; a pair of escapes for the two halves of a surrogate pair
makes one character, and a lone half becomes U+FFFD.
-/

namespace Stencil.Script
open Stencil.Text

/-! ### Between tokens -/

/-- What is being passed over: blanks, a comment to the end of the line, or a block comment. -/
inductive Gap where
  | blanks
  | lineComment
  | blockComment

/-- Passes over blanks and comments, and tells whether a line ended. -/
def skipGap : Gap → Bool → Position → List Char → Except ParseError (Bool × Cursor)
  | .blockComment, _, p, [] => .error ⟨.unterminatedComment, p⟩
  | _, newline, p, [] => .ok (newline, ⟨[], p⟩)
  | .blanks, newline, p, '/' :: '/' :: rest => skipGap .lineComment newline (p.along 2) rest
  | .blanks, newline, p, '/' :: '*' :: rest => skipGap .blockComment newline (p.along 2) rest
  | .blanks, newline, p, c :: rest =>
    if isLineEnd c then skipGap .blanks true (p.after c rest) rest
    else if isBlank c || c == '\ufeff' then skipGap .blanks newline (p.after c rest) rest
    else .ok (newline, ⟨c :: rest, p⟩)
  | .lineComment, newline, p, c :: rest =>
    if isLineEnd c then skipGap .blanks true (p.after c rest) rest
    else skipGap .lineComment newline (p.after c rest) rest
  | .blockComment, newline, p, '*' :: '/' :: rest => skipGap .blanks newline (p.along 2) rest
  | .blockComment, newline, p, c :: rest =>
    skipGap .blockComment (newline || isLineEnd c) (p.after c rest) rest

/-! ### Names and numbers -/

/-- Reads a name or keyword. -/
def readWord (cursor : Cursor) : TokenKind × Cursor :=
  let word := cursor.rest.takeWhile isNamePart
  let kind :=
    match Keyword.ofSpelling? (String.ofList word) with
    | some keyword => .keyword keyword
    | none => .name (String.ofList word)
  (kind, cursor.drop word.length)

/-- The digits at the front of a text with what stands before them, or nothing if there are no
digits. -/
def withDigits (before cs : List Char) : List Char :=
  let digits := cs.takeWhile Char.isDigit
  if digits.isEmpty then [] else before ++ digits

/-- The characters of an exponent at the front of a text: the mark, an optional sign, and at least
one digit; nothing if there are not all of these. -/
def exponentPart : List Char → List Char
  | [] => []
  | mark :: rest =>
    if mark == 'e' || mark == 'E' then
      match rest with
      | '+' :: digits => withDigits [mark, '+'] digits
      | '-' :: digits => withDigits [mark, '-'] digits
      | digits => withDigits [mark] digits
    else []

/-- The characters of a decimal numeral at the front of a text. -/
def numeralPart (cs : List Char) : List Char :=
  let before := cs.takeWhile Char.isDigit
  let rest := cs.drop before.length
  match rest with
  | '.' :: tail =>
    let after := tail.takeWhile Char.isDigit
    before ++ '.' :: after ++ exponentPart (tail.drop after.length)
  | _ => before ++ exponentPart rest

/-- Reads hexadecimal digits, whose value must fit in sixty-four bits. -/
def readHexadecimal (cursor : Cursor) : Except ParseError (TokenKind × Cursor) :=
  let digits := cursor.rest.takeWhile Number.isHexDigit
  let cursor := cursor.drop digits.length
  match Number.value? 16 digits with
  | some n =>
    if n < UInt64.size then .ok (.number (Number.ofNat n), cursor)
    else .error ⟨.invalidHexadecimal, cursor.position⟩
  | none => .error ⟨.invalidHexadecimal, cursor.position⟩

/-- Reads a decimal numeral, which no name may follow directly. -/
def readDecimal (cursor : Cursor) : Except ParseError (TokenKind × Cursor) :=
  let numeral := numeralPart cursor.rest
  let cursor := cursor.drop numeral.length
  if (cursor.rest.head?.map isNameStart).getD false then .error ⟨.invalidToken, cursor.position⟩
  else
    match Number.unsigned? numeral with
    | some value => .ok (.number value, cursor)
    | none => .error ⟨.invalidToken, cursor.position⟩

/-- Reads a number. -/
def readNumber (cursor : Cursor) : Except ParseError (TokenKind × Cursor) :=
  match cursor.rest with
  | '0' :: 'x' :: _ => readHexadecimal (cursor.drop 2)
  | '0' :: 'X' :: _ => readHexadecimal (cursor.drop 2)
  | _ => readDecimal cursor

/-! ### Strings -/

/-- The character with a code point; a half of a surrogate pair has none and gives U+FFFD. -/
def characterOf (code : Nat) (position : Position) : Except ParseError Char :=
  if 0x10FFFF < code then .error ⟨.undefinedCodePoint, position⟩
  else if code.isValidChar then .ok (Char.ofNat code)
  else .ok '\ufffd'

/-- Reads exactly `count` hexadecimal digits and adds them to `code`. -/
def readHexDigits : Nat → Nat → Cursor → Except ParseError (Nat × Cursor)
  | 0, code, cursor => .ok (code, cursor)
  | count + 1, code, cursor =>
    match cursor.rest with
    | c :: rest =>
      match Number.digitValue? 16 c with
      | some digit => readHexDigits count (code * 16 + digit) (cursor.past c rest)
      | none => .error ⟨.invalidHexEscape, cursor.position⟩
    | [] => .error ⟨.invalidHexEscape, cursor.position⟩

/-- Reads the digits and the closing brace of `\u` with braces; the opening one is passed. -/
def readBracedEscape (cursor : Cursor) : Except ParseError (List Char × Cursor) :=
  let digits := cursor.rest.takeWhile Number.isHexDigit
  let cursor := cursor.drop digits.length
  if digits.isEmpty then .error ⟨.invalidUnicodeEscape, cursor.position⟩
  else
    match cursor.rest with
    | [] => .error ⟨.invalidUnicodeEscape, cursor.position⟩
    | c :: rest =>
      let cursor := cursor.past c rest
      if c == '\x7d' then do
        let character ← characterOf (Number.value 16 digits) cursor.position
        pure ([character], cursor)
      else .error ⟨.invalidUnicodeEscape, cursor.position⟩

/-- Reads the four digits of `\u`, and a second such escape if the first gave the high half of a
surrogate pair. -/
def readUnicodeEscape (cursor : Cursor) : Except ParseError (List Char × Cursor) := do
  let (code, cursor) ← readHexDigits 4 0 cursor
  match decide (0xD800 ≤ code ∧ code < 0xDC00), cursor.rest with
  | true, '\\' :: 'u' :: _ =>
    let (low, cursor) ← readHexDigits 4 0 (cursor.drop 2)
    if 0xDC00 ≤ low ∧ low < 0xE000 then
      let paired := 0x10000 + (code - 0xD800) * 0x400 + (low - 0xDC00)
      let character ← characterOf paired cursor.position
      pure ([character], cursor)
    else
      let character ← characterOf low cursor.position
      pure (['\ufffd', character], cursor)
  | _, _ =>
    let character ← characterOf code cursor.position
    pure ([character], cursor)

/-- Reads an escape whose backslash is passed: the characters it stands for. -/
def readEscape (cursor : Cursor) : Except ParseError (List Char × Cursor) :=
  match cursor.rest with
  | [] => .error ⟨.invalidToken, cursor.position⟩
  | c :: rest =>
    let cursor := cursor.past c rest
    match c with
    | 'n' => .ok (['\n'], cursor)
    | 'r' => .ok (['\r'], cursor)
    | 't' => .ok (['\t'], cursor)
    | 'b' => .ok (['\x08'], cursor)
    | 'f' => .ok (['\x0c'], cursor)
    | 'v' => .ok (['\x0b'], cursor)
    | '0' =>
      -- before another digit the zero stands for itself
      if (rest.head?.map Char.isDigit).getD false then .ok (['0'], cursor)
      else .ok (['\x00'], cursor)
    | 'x' => do
      let (code, cursor) ← readHexDigits 2 0 cursor
      let character ← characterOf code cursor.position
      pure ([character], cursor)
    | 'u' =>
      match rest with
      | '\x7b' :: rest => readBracedEscape (cursor.past '\x7b' rest)
      | _ => readUnicodeEscape cursor
    | '\r' =>
      match rest with
      | '\n' :: rest => .ok ([], cursor.past '\n' rest)
      | _ => .ok ([], cursor)
    | '\n' => .ok ([], cursor)
    | '\u2028' => .ok ([], cursor)
    | '\u2029' => .ok ([], cursor)
    | other => .ok ([other], cursor)

/-- Reads the rest of a string up to its closing quote; `done` holds the characters so far, last
one first.  Each step passes a character, so that the length of the text bounds the steps. -/
def readQuoted (quote : Char) : Nat → List Char → Cursor → Except ParseError (String × Cursor)
  | 0, _, cursor => .error ⟨.invalidToken, cursor.position⟩
  | bound + 1, done, cursor =>
    match cursor.rest with
    | [] => .error ⟨.invalidToken, cursor.position⟩
    | c :: rest =>
      let cursor := cursor.past c rest
      if c == quote then .ok (String.ofList done.reverse, cursor)
      else if c == '\n' || c == '\r' then .error ⟨.invalidToken, cursor.position⟩
      else if c == '\\' then
        match readEscape cursor with
        | .ok (characters, cursor) =>
          readQuoted quote bound (characters.reverse ++ done) cursor
        | .error e => .error e
      else readQuoted quote bound (c :: done) cursor

/-- Reads a string whose opening quote is passed. -/
def readString (quote : Char) (cursor : Cursor) : Except ParseError (TokenKind × Cursor) := do
  let (value, cursor) ← readQuoted quote (cursor.rest.length + 1) [] cursor
  pure (.string value, cursor)

/-! ### All tokens -/

/-- Reads a punctuator. -/
def readSign (cursor : Cursor) : Except ParseError (TokenKind × Cursor) :=
  match Punctuator.longestFirst.find? (·.spelling.toList.isPrefixOf cursor.rest) with
  | some sign => .ok (.sign sign, cursor.drop sign.spelling.length)
  | none => .error ⟨.invalidCharacter (cursor.rest.headD '\x00'), cursor.position⟩

/-- Reads the token at the cursor, which stands at no blank or comment. -/
def readToken (cursor : Cursor) : Except ParseError (TokenKind × Cursor) :=
  match cursor.rest with
  | [] => .ok (.stop, cursor)
  | c :: rest =>
    if isNameStart c then .ok (readWord cursor)
    else if c.isDigit then readNumber cursor
    else if c == '.' && (rest.head?.map Char.isDigit).getD false then readNumber cursor
    else if c == '\'' || c == '"' then readString c (cursor.past c rest)
    else readSign cursor

/-- Reads all tokens from the cursor on; `done` holds those before, last one first.  Each token
but the end passes a character, so that the length of the text bounds the steps. -/
def readTokens : Nat → List Token → Cursor → Except ParseError (List Token)
  | 0, done, cursor => .ok (⟨.stop, cursor.position, false⟩ :: done).reverse
  | bound + 1, done, cursor =>
    match skipGap .blanks false cursor.position cursor.rest with
    | .error e => .error e
    | .ok (newline, cursor) =>
      match readToken cursor with
      | .error e => .error e
      | .ok (kind, next) =>
        let done := ⟨kind, cursor.position, newline⟩ :: done
        if kind.isStop then .ok done.reverse else readTokens bound done next

/-- The tokens of a text, ended by one `stop`. -/
def tokens (source : String) : Except ParseError (List Token) :=
  let cursor := Cursor.start source
  readTokens (cursor.rest.length + 1) [] cursor

end Stencil.Script
