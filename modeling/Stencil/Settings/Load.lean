import Stencil.Settings.FromYaml
import Stencil.Text.Path

/-!
# Settings — Files

Settings from a file, whose format is told by its extension before the file is looked at.
-/

namespace Stencil.Settings

/-- What files hold: the text of each path at which there is a file that can be read. -/
abbrev Files := String → Option String

/-- Why settings could not be loaded. -/
inductive LoadError where
  | unsupported (path : String)
  | unreadable
  | json (failure : Json.Failure)
  | yaml
  deriving DecidableEq, Repr

/-- The extensions of settings files. -/
def extensions : List String :=
  ["json", "yaml", "yml"]

/-- The wording of an unsupported format. -/
def unsupportedMessage (path : String) : String :=
  "Unsupported settings file '" ++ path ++ "'. Expected one of: " ++ ", ".intercalate extensions
    ++ "."

/-- Loads the settings in the file at a path. -/
def load (files : Files) (path : String) : Except LoadError Settings :=
  let extension := (Text.extension? path).getD ""
  if extensions.contains extension then
    match files path with
    | none => .error .unreadable
    | some content =>
      if extension == "json" then (ofJson content).mapError .json
      else
        match ofYaml? content with
        | some settings => .ok settings
        | none => .error .yaml
  else .error (.unsupported path)

end Stencil.Settings
