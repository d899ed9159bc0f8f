import Stencil.CommandLine.Arguments
import Stencil.Settings.Load
import Stencil.Template.Compile

/-!
# CommandLine — Running

What a command line makes of the files that it names: the output of a template for data, or the
definition of the template's function.  A hyphen in the place of the template or the data stands
for what is read from outside, and only one of the two can be that.
-/

namespace Stencil.CommandLine
open Settings (Files LoadError)

/-- Why a run has no output. -/
inductive RunError where
  | inputConflict
  | unreadable
  | settings (e : LoadError)
  | template (e : Template.Error)
  | json (failure : Json.Failure)
  | yaml
  | fault (f : Script.Fault)
  | exhausted

/-- The word for what is read from outside. -/
def outside : String := "-"

/-- The wording of a conflict over what is read from outside. -/
def inputConflictMessage : String :=
  "Cannot read both the template and the data from stdin."

/-- The wording of a fault in a JSON text. -/
def failureMessage : Json.Failure → String
  | .malformed => "the text is malformed"
  | .misfit => "a value is not what is expected"
  | .ended => "the text ends too early"

/-- The wording of settings that could not be loaded. -/
def loadMessage : LoadError → String
  | .unsupported path => Settings.unsupportedMessage path
  | .unreadable => "IO error: a file cannot be read."
  | .json failure => "Failed to parse JSON: " ++ failureMessage failure
  | .yaml => "Failed to parse YAML: the text does not fit"

/-- The wording of an error. -/
def RunError.message : RunError → String
  | inputConflict => inputConflictMessage
  | unreadable => loadMessage .unreadable
  | settings e => loadMessage e
  | template e => e.message
  | json failure => loadMessage (.json failure)
  | yaml => loadMessage .yaml
  | fault f => Template.faultMessage f
  | exhausted => "The run does not end."

/-- The wording of a command line that is not followed. -/
def UsageError.message : UsageError → String
  | missingArgument => "error: a template is required"
  | unknownArgument => "error: there is an argument that is not known"
  | conflict => "error: there are arguments that cannot be used together"
  | invalidValue => "error: an option has no value or one that cannot be used"
  | tooManyValues => "error: a flag has a value"
  | help =>
    "Usage: stencil [OPTIONS] TEMPLATE\n\n"
      ++ "  -d, --data DATA        Data as JSON, or - to read it from outside\n"
      ++ "      --data-file FILE   Read data from a JSON or YAML file\n"
      ++ "  -s, --settings FILE    Read settings from a JSON or YAML file\n"
      ++ "      --variable NAME    See the data under this name\n"
      ++ "      --source           Write the function's definition\n"
      ++ "  -o, --output FILE      Write to a file\n"
      ++ "  -v, --verbose          Report more\n"
  | version => "stencil 0.1.0"

/-- The text of a file. -/
def readFile (files : Files) (path : String) : Except RunError String :=
  match files path with
  | some text => .ok text
  | none => .error .unreadable

/-- The data of a JSON text. -/
def jsonData (source : String) : Except RunError Json.Document :=
  (Json.Document.read Json.Numeral.stepwise source).mapError .json

/-- The data of a YAML text. -/
def yamlData (source : String) : Except RunError Json.Document :=
  match Yaml.readDocument? source with
  | some d => .ok d
  | none => .error .yaml

/-- The data in a file: YAML if its extension says so, and otherwise JSON. -/
def fileData (files : Files) (path : String) : Except RunError Json.Document := do
  let source ← readFile files path
  match Text.extension? path with
  | some "yaml" => yamlData source
  | some "yml" => yamlData source
  | _ => jsonData source

/-- The settings of a run: those of the file that is named, with the name for the data replaced if
one is given. -/
def runSettings (files : Files) (arguments : Arguments) : Except RunError Settings := do
  let settings ←
    match arguments.settings with
    | some path => (Settings.load files path).mapError .settings
    | none => pure Settings.standard
  match arguments.dataName with
  | some name => pure { settings with dataName := some name }
  | none => pure settings

/-- The data of a run: an empty object if none is given. -/
def runData (files : Files) (arguments : Arguments) : Except RunError Json.Document :=
  match arguments.dataFile, arguments.data with
  | some path, _ => fileData files path
  | none, some source =>
    if source == outside then do
      let source ← readFile files outside
      jsonData source
    else jsonData source
  | none, none => .ok (.object [])

/-- The output of a template for data. -/
def rendered (template : Template) (data : Json.Document) : Except RunError String :=
  match template.render Script.ampleSteps data with
  | .ok text => .ok text
  | .error (.fault f) => .error (.fault f)
  | .error .exhausted => .error .exhausted

/-- The output of a run.  Under the name of a hyphen, `files` has what is read from outside. -/
def run (files : Files) (arguments : Arguments) : Except RunError String := do
  if arguments.template == outside && arguments.data == some outside then throw .inputConflict
  else
    let text ← readFile files arguments.template
    let settings ← runSettings files arguments
    let template ← (Template.compile settings text).mapError .template
    if arguments.source then pure template.source
    else
      let data ← runData files arguments
      rendered template data

end Stencil.CommandLine
