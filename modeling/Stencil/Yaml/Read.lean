import Stencil.Yaml.Node
import Stencil.Yaml.Scalar

/-!
# Yaml — Reading documents

Of YAML the reader knows one document of mappings, sequences and scalars, in blocks that are told
apart by their indentation or between brackets, and comments.  Keys are scalars.  It knows no tags,
no anchors, no keys after a question mark and no directives.

What stands at a column belongs to the innermost block that begins left of it.  A block may begin
where a line does, or behind the mark of an item.  The items of a sequence that is the value of a
key may stand at the column of the key.

The recursion takes one from a bound at each call; of two calls in a row one passes a character.
-/

namespace Stencil.Yaml

/-- What is left of a text, the column where it begins, and whether only blanks stand before it on
its line. -/
structure Cursor where
  rest : List Char
  column : Nat
  fresh : Bool

/-- The cursor past a character. -/
def Cursor.past (cursor : Cursor) (c : Char) (rest : List Char) : Cursor :=
  if c == '\n' then ⟨rest, 0, true⟩
  else ⟨rest, cursor.column + 1, cursor.fresh && isBlank c⟩

/-- The cursor past so many characters. -/
def Cursor.pass : Cursor → Nat → Cursor
  | cursor, 0 => cursor
  | ⟨[], column, fresh⟩, _ + 1 => ⟨[], column, fresh⟩
  | ⟨c :: rest, column, fresh⟩, count + 1 =>
    (Cursor.past ⟨c :: rest, column, fresh⟩ c rest).pass count

/-- Passes blanks, line ends and comments.  A tab is none of these at the beginning of a line,
except inside brackets. -/
def Cursor.passGap (flow comment : Bool) (column : Nat) (fresh : Bool) : List Char → Cursor
  | [] => ⟨[], column, fresh⟩
  | c :: rest =>
    if c == '\n' then passGap flow false 0 true rest
    else if comment || c == ' ' then passGap flow comment (column + 1) fresh rest
    else if c == '\t' && (flow || !fresh) then passGap flow comment (column + 1) fresh rest
    else if c == '#' then passGap flow true (column + 1) fresh rest
    else ⟨c :: rest, column, fresh⟩

/-- Reads from the front of a text, or finds that it is no YAML. -/
abbrev Reader := StateT Cursor Option

namespace Reader

/-- The text is no YAML. -/
def refuse {α : Type} : Reader α :=
  fun _ => none

/-- Passes blanks, line ends and comments. -/
def gap (flow : Bool) : Reader Unit :=
  modify fun cursor => Cursor.passGap flow false cursor.column cursor.fresh cursor.rest

/-- The next character. -/
def peek : Reader (Option Char) := do
  pure (← get).rest.head?

/-- Passes one character. -/
def skip : Reader Unit :=
  modify (·.pass 1)

/-- Goes on where `rest` begins, which is an end of what is left. -/
def goOn (rest : List Char) : Reader Unit :=
  modify fun cursor => cursor.pass (cursor.rest.length - rest.length)

/-- Whether a character is followed by a gap and is the given one. -/
def isMark (mark : Char) (text : List Char) : Bool :=
  match text with
  | c :: rest => c == mark && isGap rest.head?
  | [] => false

/-! ### Scalars -/

/-- Reads a scalar in quotes, if one is next. -/
def quotedScalar : Reader (Option String) := do
  let cursor ← get
  match cursor.rest with
  | '\'' :: rest =>
    match singleQuoted (rest.length + 1) [] rest with
    | some (text, after) => do
      goOn after
      pure (some (String.ofList text))
    | none => refuse
  | '"' :: rest =>
    match doubleQuoted (rest.length + 1) [] rest with
    | some (text, after) => do
      goOn after
      pure (some (String.ofList text))
    | none => refuse
  | _ => pure none

/-- Whether a text begins with a colon that stands at a mark of a bracket, blanks aside. -/
def isColonAtMark (text : List Char) : Bool :=
  match text.dropWhile isBlank with
  | ':' :: c :: _ => isFlowMark c
  | _ => false

/-- Reads a scalar in quotes or a plain one. -/
def scalar (flow : Bool) (least : Nat) : Reader Node := do
  match ← quotedScalar with
  | some text => pure (.scalar false text)
  | none => do
    match (← get).rest with
    | [] => refuse
    | c :: rest =>
      if startsPlain flow c rest then do
        let (text, after) := plainScalar flow least (c :: rest)
        if flow && isColonAtMark after then refuse
        else do
          goOn after
          pure (.scalar true (String.ofList text))
      else refuse

/-- Reads a scalar of a block, and tells whether it is a key: it stands on one line with a colon
behind it. -/
def scalarOrKey (least : Nat) : Reader (Node × Bool) := do
  let text := (← get).rest
  let node ← scalar false least
  let after := (← get).rest
  let taken := text.take (text.length - after.length)
  pure (node, !taken.contains '\n' && isMark ':' (after.dropWhile isBlank))

/-- The text of a scalar that is a key. -/
def keyText : Node → Reader String
  | .scalar _ text => pure text
  | _ => refuse

/-! ### Between brackets -/

mutual

/-- Reads a node between brackets. -/
def flowNode : (bound : Nat) → Reader Node
  | 0 => refuse
  | bound + 1 => do
    match ← peek with
    | some '[' => do
      skip
      let items ← flowItems bound
      pure (.sequence items)
    | some '\x7b' => do
      skip
      let entries ← flowEntries bound
      pure (.mapping entries)
    | _ => scalar true 0

/-- Reads the value behind a key between brackets, which may be left out. -/
def flowValue : (bound : Nat) → Reader Node
  | 0 => refuse
  | bound + 1 => do
    skip
    gap true
    match ← peek with
    | some c =>
      if c == ',' || c == ']' || c == '\x7d' then pure .absent else flowNode bound
    | none => refuse

/-- Reads the items of a sequence up to the closing bracket.  An item with a colon behind it is a
mapping of one entry. -/
def flowItems : (bound : Nat) → Reader (List Node)
  | 0 => refuse
  | bound + 1 => do
    gap true
    if (← peek) == some ']' then do
      skip
      pure []
    else do
      let first ← flowNode bound
      gap true
      let item ←
        if (← peek) == some ':' then do
          let key ← keyText first
          let value ← flowValue bound
          gap true
          pure (Node.mapping [(key, value)])
        else pure first
      match ← peek with
      | some ',' => do
        skip
        let items ← flowItems bound
        pure (item :: items)
      | some ']' => do
        skip
        pure [item]
      | _ => refuse

/-- Reads the entries of a mapping up to the closing brace. -/
def flowEntries : (bound : Nat) → Reader (List (String × Node))
  | 0 => refuse
  | bound + 1 => do
    gap true
    if (← peek) == some '\x7d' then do
      skip
      pure []
    else do
      let first ← flowNode bound
      let key ← keyText first
      gap true
      let value ← if (← peek) == some ':' then flowValue bound else pure .absent
      gap true
      match ← peek with
      | some ',' => do
        skip
        let entries ← flowEntries bound
        pure ((key, value) :: entries)
      | some '\x7d' => do
        skip
        pure [(key, value)]
      | _ => refuse

end

/-! ### Blocks -/

/-- Passes the colon behind a key. -/
def passColon : Reader Unit := do
  let rest := (← get).rest.dropWhile isBlank
  goOn rest
  skip

/-- Whether another part of the block at a column comes next; there must be a line end before it,
and it must not stand further right. -/
def another (column : Nat) : Reader Bool := do
  gap false
  let cursor ← get
  if cursor.rest.isEmpty then pure false
  else if !cursor.fresh || column < cursor.column then refuse
  else pure (cursor.column == column)

mutual

/-- Reads a node of a block that stands at column `least` or further right, or if it is a sequence
at column `dash` or further right.  A block may begin on this line if `compact`. -/
def blockNode : (bound : Nat) → (least dash : Nat) → (compact : Bool) → Reader Node
  | 0, _, _, _ => refuse
  | bound + 1, least, dash, compact => do
    gap false
    let cursor ← get
    let atDash := isMark '-' cursor.rest
    if cursor.rest.isEmpty || cursor.fresh && cursor.column < (if atDash then dash else least) then
      pure .absent
    else if atDash then
      if compact || cursor.fresh then do
        let items ← blockItems bound cursor.column
        pure (.sequence items)
      else refuse
    else
      match cursor.rest with
      | '[' :: _ => flowNode bound
      | '\x7b' :: _ => flowNode bound
      | '|' :: rest => blockText false least rest
      | '>' :: rest => blockText true least rest
      | _ => do
        let (first, isKey) ← scalarOrKey least
        if isKey then
          if compact || cursor.fresh then do
            let key ← keyText first
            let entries ← blockEntries bound cursor.column key
            pure (.mapping entries)
          else refuse
        else pure first

/-- Reads a block scalar, of which the first mark is next. -/
def blockText (fold : Bool) (least : Nat) (text : List Char) : Reader Node :=
  match blockScalar fold least text with
  | some (content, after) => do
    goOn after
    pure (.scalar false (String.ofList content))
  | none => refuse

/-- Reads the items of a sequence at a column, from the mark of one on. -/
def blockItems : (bound : Nat) → (column : Nat) → Reader (List Node)
  | 0, _ => refuse
  | bound + 1, column => do
    skip
    let item ← blockNode bound (column + 1) (column + 1) true
    if (← another column) && isMark '-' (← get).rest then do
      let items ← blockItems bound column
      pure (item :: items)
    else pure [item]

/-- Reads the entries of a mapping at a column, from the colon behind a key on. -/
def blockEntries : (bound : Nat) → (column : Nat) → (key : String) → Reader (List (String × Node))
  | 0, _, _ => refuse
  | bound + 1, column, key => do
    passColon
    let value ← blockNode bound (column + 1) column false
    if ← another column then do
      let (next, isKey) ← scalarOrKey (column + 1)
      if isKey then do
        let nextKey ← keyText next
        let entries ← blockEntries bound column nextKey
        pure ((key, value) :: entries)
      else refuse
    else pure [(key, value)]

end

/-- Reads a document to its end. -/
def document (bound : Nat) : Reader Node := do
  let node ← blockNode bound 0 0 true
  gap false
  match ← peek with
  | none => pure node
  | some _ => refuse

end Reader

/-! ### Texts -/

/-- Whether a character may stand in a text. -/
def isAllowed (c : Char) : Bool :=
  let n := c.toNat
  c == '\t' || c == '\n' || c == '\r' || 0x20 ≤ n && n ≤ 0x7E || n == 0x85
    || 0xA0 ≤ n && n ≤ 0xFFFD && n != 0xFEFF || 0x10000 ≤ n

/-- A text with every line end written as a line feed. -/
def lineFeeds : List Char → List Char
  | [] => []
  | '\r' :: '\n' :: rest => '\n' :: lineFeeds rest
  | '\r' :: rest => '\n' :: lineFeeds rest
  | '\u0085' :: rest => '\n' :: lineFeeds rest
  | c :: rest => c :: lineFeeds rest

/-- Whether a line says nothing: it is blank but for a comment. -/
def isSilent (line : List Char) : Bool :=
  (line.dropWhile isBlank).head?.all (· == '#')

/-- Whether a line begins with three marks that stand alone. -/
def hasMarks (mark : Char) (line : List Char) : Bool :=
  line.take 3 == [mark, mark, mark] && isGap (line.drop 3).head?

/-- The lines of the only document: up to a line of three dots, behind which nothing is said.  No
other document may begin. -/
def documentLines : List (List Char) → Option (List (List Char))
  | [] => some []
  | line :: rest =>
    if hasMarks '-' line then none
    else if hasMarks '.' line then
      if isSilent (line.drop 3) && rest.all isSilent then some [] else none
    else (documentLines rest).map (line :: ·)

/-- The lines of the only document, which may be introduced by three hyphens. -/
def contentLines (lines : List (List Char)) : Option (List (List Char)) :=
  let silent := lines.takeWhile isSilent
  match lines.drop silent.length with
  | [] => some []
  | line :: rest =>
    if line.head? == some '%' then none
    else if hasMarks '-' line then
      (documentLines rest).map (([' ', ' ', ' '] ++ line.drop 3) :: ·)
    else documentLines (line :: rest)

/-- Reads a text of one document. -/
def Node.read? (source : String) : Option Node := do
  let text := source.toList
  let text := if text.head? == some '\uFEFF' then text.drop 1 else text
  if text.all isAllowed then do
    let lines ← contentLines (splitLines [] (lineFeeds text))
    let content := ['\n'].intercalate lines
    let (node, _) ← (Reader.document (2 * content.length + 2)).run ⟨content, 0, true⟩
    if node.depth ≤ maxDepth then some node else none
  else none

/-- Reads the data that a text says. -/
def readDocument? (source : String) : Option Json.Document :=
  Node.read? source >>= Node.document?

end Stencil.Yaml
