import Stencil.Text.Blank
import Stencil.Text.Word

/-!
# Template — The name of the data

The name under which a template sees its data goes into the text of a script as it is.  It must be
bare, which is less than being a name of the language: word characters and dollar signs, one at
least, with any blanks at the ends.
-/

namespace Stencil.Variable
open Text

/-- Whether a character can stand in a bare name. -/
def isBareChar (c : Char) : Bool :=
  isWord c || c == '$'

/-- Whether a text is a bare name, blanks at its ends aside. -/
def isBare (s : String) : Bool :=
  let name := trimChars s.toList
  !name.isEmpty && name.all isBareChar

/-- The bare name without the blanks at its ends. -/
def bare? (s : String) : Option String :=
  if isBare s then some (trim s) else none

end Stencil.Variable
