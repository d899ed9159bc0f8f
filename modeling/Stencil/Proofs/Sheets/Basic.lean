import Stencil.Proofs.Grammar.Whole
import Stencil.Proofs.Pieces.Standard
import Stencil.Proofs.Tokens.Ends
import Stencil.Template.Compile

/-!
# Sheets — templates with structure

A sheet is a template whose structure is in view: lines of text and values, and between them choices
between two sheets and sheets that are repeated.  Its expressions compute a value and do nothing
else: no call, no assignment, no function.

* `Sheet.text`: the template that a sheet is written as.
* `Sheet.render`: what a sheet means.  It is computed from the data from left to right, with no
  program in between: a name stands for the member of the data that it names.
-/

namespace Stencil.Script

/-! ### Expressions without effects -/

mutual

/-- Expressions that only compute a value. -/
def Expr.Plain : Expr → Prop
  | .number _ => True
  | .string _ => True
  | .bool _ => True
  | .null => True
  | .name _ => True
  | .array items => PlainAll items
  | .object fields => PlainFields fields
  | .function _ => False
  | .member object _ => object.Plain
  | .index object key => object.Plain ∧ key.Plain
  | .call _ _ => False
  | .unary _ operand => operand.Plain
  | .update _ _ _ => False
  | .binary _ left right => left.Plain ∧ right.Plain
  | .logical _ left right => left.Plain ∧ right.Plain
  | .conditional test yes no => test.Plain ∧ yes.Plain ∧ no.Plain
  | .assign _ _ _ => False

/-- Lists of such expressions. -/
def PlainAll : List Expr → Prop
  | [] => True
  | e :: rest => e.Plain ∧ PlainAll rest

/-- Fields with such values. -/
def PlainFields : List (String × Expr) → Prop
  | [] => True
  | (_, e) :: rest => e.Plain ∧ PlainFields rest

end

/-- What names stand for. -/
abbrev Valuation := String → Value

mutual

/-- The value of an expression that only computes one. -/
def Expr.value (ρ : Valuation) : Expr → Run Value
  | .number x => pure (.number x)
  | .string t => pure (.string t)
  | .bool b => pure (.bool b)
  | .null => pure .null
  | .name word => pure (ρ word)
  | .array items => do
    let values ← valueAll ρ items
    newArray values.toArray
  | .object fields => do
    let all ← valueFields ρ fields []
    newObject all
  | .member object key => do
    let base ← object.value ρ
    getProperty base key
  | .index object key => do
    let base ← object.value ρ
    let k ← key.value ρ
    let s ← get
    getProperty base (s.key k)
  | .unary op operand => do
    let v ← operand.value ρ
    applyUnary op v
  | .binary op left right => do
    let v ← left.value ρ
    let w ← right.value ρ
    operate op v w
  | .logical op left right => do
    let v ← left.value ρ
    if op.keepsLeft v then pure v else right.value ρ
  | .conditional test yes no => do
    let v ← test.value ρ
    if v.truthy then yes.value ρ else no.value ρ
  | _ => pure .undefined

/-- The values of several expressions from left to right. -/
def valueAll (ρ : Valuation) : List Expr → Run (List Value)
  | [] => pure []
  | e :: rest => do
    let v ← e.value ρ
    let vs ← valueAll ρ rest
    pure (v :: vs)

/-- The values of fields, added to those before. -/
def valueFields (ρ : Valuation) : List (String × Expr) → Fields → Run Fields
  | [], done => pure done
  | (key, e) :: rest, done => do
    let v ← e.value ρ
    valueFields ρ rest (done.put key v)

end

/-- A valuation with another value for a name. -/
def Valuation.bind (ρ : Valuation) (name : String) (v : Value) : Valuation :=
  fun word => if word = name then v else ρ word

/-- What the members of a value are. -/
def Store.members (s : Store) (base : Value) : Valuation := fun name =>
  match getProperty base name s with
  | .ok v _ => v
  | .error _ _ => .undefined

/-- Joins two texts within the limit of strings. -/
def joined (a b : String) : Run String :=
  if maxStringBytes < a.utf8ByteSize + b.utf8ByteSize then fail .stringLength else pure (a ++ b)

/-- A value as a directive writes it: nothing for `undefined` and `null`. -/
def Store.written (s : Store) (escapes : Bool) (v : Value) : String :=
  if v.isNullish then "" else if escapes then Markup.escape (s.text v) else s.text v

end Stencil.Script

namespace Stencil
open Script

/-! ### Sheets -/

/-- The names that stand for something else in a template's function. -/
def reservedNames : List String :=
  ["obj", "_", "__p", "__t", "print"] ++ globalNames

/-- The text of an expression that only computes a value.  It does not end in a comment to the end of
its line, and the closing marks of directives are not in it. -/
structure Phrase where
  text : String
  tree : Expr
  expresses : Expresses text tree
  plain : tree.Plain
  closed : ¬ OpenComment text.toList
  unmarked : Avoids '%' '>' text.toList

/-- Text between directives. -/
structure Verbatim where
  text : String
  unmarked : Avoids '<' '%' text.toList

/-- The name of a loop variable. -/
structure LoopName where
  word : String
  isName : isName word = true

/-- A value, written with its special characters escaped or as it is, and the text after it. -/
structure Segment where
  escapes : Bool
  phrase : Phrase
  after : Verbatim

/-- Text and values. -/
structure Line where
  first : Verbatim
  segments : List Segment

/-- **Sheets**: a line alone, or a line before a choice or a repetition, and a sheet after it. -/
inductive Sheet where
  | line (line : Line)
  | branch (line : Line) (test : Phrase) (yes no rest : Sheet)
  | each (line : Line) (name : LoopName) (subject : Phrase) (body rest : Sheet)

/-! ### Names -/

/-- The names in a line. -/
def Line.names (line : Line) : List String :=
  line.segments.flatMap fun segment => segment.phrase.tree.uses []

/-- The names in a sheet, those of its loop variables too. -/
def Sheet.names : Sheet → List String
  | line l => l.names
  | branch l test yes no rest =>
    l.names ++ test.tree.uses [] ++ yes.names ++ no.names ++ rest.names
  | each l name subject body rest =>
    l.names ++ subject.tree.uses [] ++ name.word :: body.names ++ rest.names

/-! ### Text -/

/-- The directive of a value, and the text after it. -/
def Segment.text (segment : Segment) : String :=
  (if segment.escapes then "<%-" else "<%=") ++ segment.phrase.text ++ "%>" ++ segment.after.text

/-- The text of a line. -/
def Line.text (line : Line) : String :=
  line.first.text ++ String.join (line.segments.map Segment.text)

/-- A directive with part of a statement. -/
def statement (part : String) : String :=
  "<%" ++ part ++ "%>"

/-- **The template that a sheet is written as.** -/
def Sheet.text : Sheet → String
  | line l => l.text
  | branch l test yes no rest =>
    l.text ++ statement (" if (" ++ test.text ++ ") \x7b ") ++ yes.text
      ++ statement " \x7d else \x7b " ++ no.text ++ statement " \x7d " ++ rest.text
  | each l name subject body rest =>
    l.text ++ statement (" for (let " ++ name.word ++ " of " ++ subject.text ++ ") \x7b ")
      ++ body.text ++ statement " \x7d " ++ rest.text

/-! ### Meaning -/

/-- Adds a value and the text after it to the text before. -/
def Segment.write (ρ : Valuation) (segment : Segment) (before : String) : Run String := do
  let v ← segment.phrase.tree.value ρ
  let s ← get
  let text ← joined before (s.written segment.escapes v)
  joined text segment.after.text

/-- The text of a line with its values. -/
def Line.write (ρ : Valuation) (line : Line) : Run String :=
  line.segments.foldlM (fun before segment => segment.write ρ before) line.first.text

/-- Adds what a sheet means to the output.  A line is put together before it is added. -/
def Sheet.write : Sheet → Valuation → String → Run String
  | line l, ρ, out => do
    let text ← l.write ρ
    joined out text
  | branch l test yes no rest, ρ, out => do
    let text ← l.write ρ
    let out ← joined out text
    let v ← test.tree.value ρ
    let out ← if v.truthy then yes.write ρ out else no.write ρ out
    rest.write ρ out
  | each l name subject body rest, ρ, out => do
    let text ← l.write ρ
    let out ← joined out text
    let v ← subject.tree.value ρ
    let items ← loopItems v
    let out ← items.foldlM (fun out item => body.write (ρ.bind name.word item) out) out
    rest.write ρ out

/-- The object that names are read from: the data, or an empty object where the data is falsy. -/
def dataObject (v : Value) : Run Value :=
  if v.truthy then pure v else newObject []

/-- What a sheet means, on a store. -/
def Sheet.run (sheet : Sheet) (data : Json.Document) : Run String := do
  let v ← importDocument data
  let base ← dataObject v
  let s ← get
  sheet.write (s.members base) ""

/-- **What a sheet means**: the text that it makes of data, or the fault that it ends with. -/
def Sheet.render (sheet : Sheet) (data : Json.Document) : Except Stop String :=
  match sheet.run data Store.initial with
  | .ok text _ => .ok text
  | .error e _ => .error e

end Stencil
