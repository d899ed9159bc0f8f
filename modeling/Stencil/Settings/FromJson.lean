import Stencil.Json.Reader
import Stencil.Settings.Basic

/-!
# Settings — From JSON

Settings as an object with any of the members `escape`, `interpolate`, `evaluate` and `variable`,
or as an array of these values in this order, from which the last ones may be missing.  A value is a
string or null; null as a delimiter means that the kind does not occur.

The text is read from left to right, and the first thing wrong is reported: a member that is
unknown or repeated before its value is looked at, and a value that does not fit before what
follows it.
-/

namespace Stencil.Settings
open Json

/-- The members of settings, in the order in which an array gives them. -/
def memberNames : List String :=
  Directive.all.map Directive.name ++ ["variable"]

/-- Sets the member of a given name, if its value can be a value of it. -/
def setMember (settings : Settings) (name : String) (value : Option String) : Option Settings :=
  match Directive.all.find? (·.name == name), value with
  | some kind, some source =>
    match Delimiter.read kind.name source with
    | .ok delimiter => some (settings.withDelimiter kind (some delimiter))
    | .error _ => none
  | some kind, none => some (settings.withDelimiter kind none)
  | none, value => some { settings with dataName := value }

/-- Reads a string or null. -/
def stringOrNull : Reader (Option String) := do
  match ← Reader.peek with
  | none => throw .ended
  | some c =>
    if c == '[' || c == '\x7b' then throw .misfit
    else
      match ← Reader.scalar Numeral.stepwise c with
      | .string s => pure (some s)
      | .null => pure none
      | _ => throw .misfit

/-- Reads the value of a member and sets it. -/
def readMember (settings : Settings) (name : String) : Reader Settings := do
  let value ← stringOrNull
  match settings.setMember name value with
  | some settings => pure settings
  | none => throw .misfit

/-- Reads the members of an object that are left; `missing` holds the names that have not occurred
yet. -/
def readMembers : (missing : List String) → (bound : Nat) → (first : Bool) → Settings →
    Reader Settings
  | _, 0, _, settings => pure settings
  | missing, bound + 1, first, settings => do
    match ← Reader.nextKey first with
    | none => pure settings
    | some key =>
      if missing.contains key then do
        Reader.colon
        let settings ← readMember settings key
        readMembers (missing.erase key) bound false settings
      else throw .misfit

/-- Reads the elements of an array as the members of the given names. -/
def readElements : (names : List String) → (first : Bool) → Settings → Reader Settings
  | [], _, settings => pure settings
  | name :: names, first, settings => do
    if ← Reader.nextElement first then do
      let settings ← readMember settings name
      readElements names false settings
    else pure settings

/-- Reads settings. -/
def reader : Reader Settings := do
  match ← Reader.peek with
  | none => throw .ended
  | some '[' => do
    Reader.skip
    let settings ← readElements memberNames true standard
    Reader.closeArray
    pure settings
  | some c =>
    if c == '\x7b' then do
      Reader.skip
      let settings ← readMembers memberNames (memberNames.length + 1) true standard
      Reader.skip
      pure settings
    else do
      let _ ← Reader.scalar Numeral.stepwise c
      throw .misfit

/-- The settings that a JSON text says. -/
def ofJson (source : String) : Except Failure Settings :=
  Reader.runOn reader source

end Stencil.Settings
