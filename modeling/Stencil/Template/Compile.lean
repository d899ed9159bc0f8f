import Stencil.Script.Function
import Stencil.Script.Names
import Stencil.Template.Body
import Stencil.Settings.Basic
import Stencil.Template.Variable

/-!
# Template — Compiling

A template becomes a function of its data and the helper object, which returns the output.

* With a name for the data, the function has it as its parameter.
* Without one, the parameter is `obj`, and the body first binds every name it takes from outside to
  the member of the data with that name.
-/

namespace Stencil
open Script

/-- A compiled template: its function, and the text of the function's definition. -/
structure Template where
  function : Definition
  source : String

namespace Template

/-- Why a template does not compile. -/
inductive Error where
  | invalidVariable (name : String)
  | generation (e : ParseError) (generated : String)

/-- The wording of an error. -/
def Error.message : Error → String
  | invalidVariable name => "variable is not a bare identifier: " ++ name
  | generation e _ => "Failed to build template function: " ++ e.report

/-- The wording of a fault of a script in a template. -/
def faultMessage (f : Fault) : String :=
  "Render error: " ++ f.report

/-- The text of the definition of a function with one parameter and the given body. -/
def definitionText (parameter body : String) : String :=
  "function(" ++ parameter ++ ")\x7b\n" ++ body ++ "\x7d"

/-- The function of the data and the helper object with the given body. -/
def build (parameter body : String) : Except Error Definition :=
  match Definition.build [parameter, "_"] body with
  | .ok definition => .ok definition
  | .error e => .error (.generation e (definitionText parameter body))

/-- The parameter for data that has no name of its own. -/
def dataParameter : String := "obj"

/-- The statements that bind names to the members of the data. -/
def bindings (parameter : String) (names : List String) : String :=
  parameter ++ " = " ++ parameter ++ " || \x7b\x7d;\n" ++
    if names.isEmpty then ""
    else
      "var " ++ ", ".intercalate (names.map fun name => name ++ " = " ++ parameter ++ "." ++ name)
        ++ ";\n"

/-- A body preceded by the bindings of all names that it takes from outside. -/
def bindMembers (parameter body : String) : Except Error String := do
  let definition ← build parameter body
  pure (bindings parameter (freeNames definition) ++ body)

/-- The parameter of a template's function, and its body. -/
def parts (settings : Settings) (body : String) : Except Error (String × String) :=
  match settings.dataName with
  | some name =>
    match Variable.bare? name with
    | some parameter => .ok (parameter, body)
    | none => .error (.invalidVariable name)
  | none => (bindMembers dataParameter body).map fun bound => (dataParameter, bound)

/-- The pieces of a template under its settings. -/
def pieces (settings : Settings) (text : String) : List Piece :=
  Piece.ofTemplate settings.find text

/-- Compiles a template. -/
def compile (settings : Settings) (text : String) : Except Error Template := do
  let (parameter, body) ← parts settings (Body.ofTemplate (pieces settings text))
  let function ← build parameter body
  pure ⟨function, definitionText parameter body⟩

/-- The template whose function is defined by a text. -/
def ofSource (source : String) : Except Error Template :=
  match parseDefinition source with
  | .ok definition => .ok ⟨definition, source⟩
  | .error e => .error (.generation e source)

/-- The output of a template for data. -/
def render (template : Template) (steps : Nat) (data : Json.Document) : Except Stop String :=
  template.function.apply steps data

end Template

end Stencil
