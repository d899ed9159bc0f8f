import Stencil.Pattern.Find
import Stencil.Pattern.Read
import Stencil.Template.Directive

/-!
# Template — Delimiters

A delimiter is a pattern that matches a whole directive and whose first group matches what is
inside.
-/

namespace Stencil

/-- A delimiter as it is written, and its pattern. -/
structure Delimiter where
  source : String
  pattern : Pattern

/-- What is wrong with a delimiter. -/
inductive DelimiterFault where
  | noPattern
  | noGroup
  deriving DecidableEq, Repr

/-- A text that cannot be a delimiter, and the name of what it was to delimit. -/
structure DelimiterError where
  name : String
  source : String
  fault : DelimiterFault
  deriving DecidableEq, Repr

/-- The wording of an error; that of a text that is no pattern is left to whoever reports it. -/
def DelimiterError.message? (e : DelimiterError) : Option String :=
  match e.fault with
  | .noPattern => none
  | .noGroup =>
    some ("Invalid " ++ e.name ++ " delimiter '" ++ e.source ++ "': pattern has no capture group.")

/-- Reads a delimiter. -/
def Delimiter.read (name source : String) : Except DelimiterError Delimiter :=
  match Pattern.read? source with
  | none => .error ⟨name, source, .noPattern⟩
  | some pattern =>
    if pattern.groupCount = 0 then .error ⟨name, source, .noGroup⟩ else .ok ⟨source, pattern⟩

namespace Delimiter

/-- The character that tells the standard marks of a kind of directive from the others. -/
def standardMark : Directive → String
  | .escape => "-"
  | .interpolate => "="
  | .evaluate => ""

/-- How the standard delimiter of a kind is written. -/
def standardSource (kind : Directive) : String :=
  "<%" ++ standardMark kind ++ "([\\s\\S]+?)%>"

/-- Items in sequence, which must not be none. -/
def sequenceOf : List Pattern → Pattern
  | [] => .empty
  | [last] => last
  | first :: rest => .sequence first (sequenceOf rest)

/-- The pattern of a text that stands for itself. -/
def marks (text : String) : List Pattern :=
  text.toList.map fun c => .char (.one c)

/-- Any character, as the union of the blanks and the others. -/
def anyChar : CharSet :=
  .union (.union .nothing .blank) (.complement .blank)

theorem has_anyChar (c : Char) : anyChar.has c = true := by
  simp [anyChar, CharSet.has]

/-- The pattern of the standard delimiter: the opening marks, as few characters as possible but at
least one, and the closing marks. -/
def standardPattern (kind : Directive) : Pattern :=
  sequenceOf
    (marks ("<%" ++ standardMark kind)
      ++ [.group 1 (.repetition (.char anyChar) 1 none false)] ++ marks "%>")

/-- The standard delimiter of a kind of directive. -/
def standard (kind : Directive) : Delimiter :=
  ⟨standardSource kind, standardPattern kind⟩

theorem read_standardSource (kind : Directive) :
    Pattern.read? (standardSource kind) = some (standardPattern kind) := by
  cases kind <;> decide +kernel

end Delimiter

end Stencil
