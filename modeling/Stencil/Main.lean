import Stencil.CommandLine.Run

/-!
# The command line program

Reads the files that the command line names, runs on what they hold, and writes the output.
-/

namespace Stencil
open CommandLine

/-- The text of a file, or of the standard input, if it can be read. -/
def readPath (path : String) : IO (Option String) := do
  try
    if path == outside then
      let input ← IO.getStdin
      let bytes ← input.readBinToEnd
      pure (String.fromUTF8? bytes)
    else
      let text ← IO.FS.readFile path
      pure (some text)
  catch _ => pure none

/-- The paths that a run may read. -/
def pathsOf (arguments : Arguments) : List String :=
  let input := if arguments.data == some outside then [outside] else []
  [arguments.template] ++ arguments.settings.toList ++ arguments.dataFile.toList ++ input

/-- Reads the files of a run. -/
def readFiles (arguments : Arguments) : IO Settings.Files := do
  let texts ← (pathsOf arguments).mapM fun path => do
    let text ← readPath path
    pure (path, text)
  pure fun path => (texts.lookup path).join

/-- Writes the output of a run; the directories that a file is to be in are made. -/
def writeOutput (arguments : Arguments) (text : String) : IO UInt32 := do
  match arguments.output with
  | some path => do
    try
      match Text.parent? path with
      | some "" => pure ()
      | some directory => IO.FS.createDirAll directory
      | none => pure ()
      IO.FS.writeFile path text
      pure 0
    catch _ => do
      IO.eprintln (RunError.message .unreadable)
      pure 1
  | none => do
    IO.print text
    pure 0

/-- Runs what the command line asks for. -/
def runArguments (arguments : Arguments) : IO UInt32 := do
  if arguments.template == outside && arguments.data == some outside then
    IO.eprintln inputConflictMessage
    pure 1
  else
    let files ← readFiles arguments
    match run files arguments with
    | .ok text => writeOutput arguments text
    | .error e => do
      IO.eprintln e.message
      pure 1

end Stencil

/-- Runs the program on the words of the command line. -/
def main (words : List String) : IO UInt32 := do
  match Stencil.CommandLine.Arguments.read words with
  | .ok arguments => Stencil.runArguments arguments
  | .error .help => do
    IO.print (Stencil.CommandLine.UsageError.message .help)
    pure 0
  | .error .version => do
    IO.println (Stencil.CommandLine.UsageError.message .version)
    pure 0
  | .error e => do
    IO.eprintln e.message
    pure 1
