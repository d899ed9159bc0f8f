import Stencil.Settings.FromJson
import Stencil.Yaml.Read

/-!
# Settings — From YAML

Settings as a mapping with any of the keys `escape`, `interpolate`, `evaluate` and `variable`, each
once.  A value is a scalar; a plain one that is written like null stands for none, and every other
one for its text.  A text that says nothing sets nothing.
-/

namespace Stencil.Settings
open Yaml

/-- The value of a scalar. -/
def scalarValue? : Node → Option (Option String)
  | .scalar plain text => some (if plain && nullSpellings.contains text then none else some text)
  | _ => none

/-- Sets the members that entries name; `missing` holds the names that have not occurred yet. -/
def setEntries? : (missing : List String) → Settings → List (String × Node) → Option Settings
  | _, settings, [] => some settings
  | missing, settings, (key, node) :: rest => do
    if missing.contains key then
      let value ← scalarValue? node
      let settings ← settings.setMember key value
      setEntries? (missing.erase key) settings rest
    else none

/-- The settings that a node says. -/
def ofNode? : Node → Option Settings
  | .mapping entries => setEntries? memberNames standard entries
  | .scalar _ text => if text.isEmpty then some standard else none
  | .sequence _ => none

/-- The settings that a YAML text says. -/
def ofYaml? (source : String) : Option Settings :=
  Node.read? source >>= ofNode?

end Stencil.Settings
