/-!
# Text — Paths

The extension of a file's name, by which its format is told, and the directory that a file is in.
-/

namespace Stencil.Text

/-- The parts of a path between its slashes, apart from those that are empty or a dot. -/
def pathParts (path : String) : List (List Char) :=
  ((path.toList.splitOn '/').filter fun part => !part.isEmpty && part != ['.'])

/-- What follows the last dot of a file's name.  A name that has no dot, or none but the one it
begins with, has no extension. -/
def extension? (path : String) : Option String :=
  match (pathParts path).getLast? with
  | none => none
  | some name =>
    let extension := (name.reverse.takeWhile (· != '.')).reverse
    if name.length ≤ extension.length + 1 || name == ['.', '.'] then none
    else some (String.ofList extension)

/-- What stands before the last slash of a path, if there is one. -/
def parent? (path : String) : Option String :=
  match path.toList.reverse.dropWhile (· != '/') with
  | _ :: before => some (String.ofList before.reverse)
  | [] => none

end Stencil.Text
