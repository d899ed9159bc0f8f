/-!
# CommandLine — Arguments

The words of a command line: one template, options with a value, and flags.

* An option's value is the next word, or what is joined to the option: with `=` to a long one, with
  or without it to a short one.  A word that begins with a hyphen and has more to it is no value.
* Short flags can stand in one word, the last of them may be an option.
* After `--` every word is a template.

An option waits for its value until the next option or flag or the end.  Then it is checked: that
it has a value, that it is the first of its kind, and that the value is not empty if it is a path.
-/

namespace Stencil.CommandLine

/-- The options that have a value. -/
inductive Opt where
  | data
  | dataFile
  | settings
  | dataName
  | output
  deriving DecidableEq, Repr

/-- The flags. -/
inductive Flag where
  | source
  | verbose
  | help
  | version
  deriving DecidableEq, Repr

/-- Why a command line is not followed. -/
inductive UsageError where
  | missingArgument
  | unknownArgument
  | conflict
  | invalidValue
  | tooManyValues
  | help
  | version
  deriving DecidableEq, Repr

/-- What a command line asks for. -/
structure Arguments where
  template : String
  data : Option String
  dataFile : Option String
  settings : Option String
  dataName : Option String
  output : Option String
  source : Bool
  verbosity : Nat
  deriving DecidableEq, Repr

/-- An option or a flag. -/
inductive Switch where
  | opt (o : Opt)
  | flag (f : Flag)
  deriving DecidableEq, Repr

/-- The long name of a switch. -/
def Switch.ofLong? (name : String) : Option Switch :=
  match name with
  | "data" => some (.opt .data)
  | "data-file" => some (.opt .dataFile)
  | "settings" => some (.opt .settings)
  | "variable" => some (.opt .dataName)
  | "output" => some (.opt .output)
  | "source" => some (.flag .source)
  | "verbose" => some (.flag .verbose)
  | "help" => some (.flag .help)
  | "version" => some (.flag .version)
  | _ => none

/-- The short name of a switch. -/
def Switch.ofShort? (letter : Char) : Option Switch :=
  match letter with
  | 'd' => some (.opt .data)
  | 's' => some (.opt .settings)
  | 'o' => some (.opt .output)
  | 'v' => some (.flag .verbose)
  | 'h' => some (.flag .help)
  | 'V' => some (.flag .version)
  | _ => none

/-- Whether the value of an option is a path. -/
def Opt.isPath : Opt → Bool
  | .data => false
  | .dataFile => true
  | .settings => true
  | .dataName => false
  | .output => true

/-- What has been read of a command line. -/
structure Progress where
  template : Option String
  values : List (Opt × String)
  source : Bool
  verbosity : Nat
  waiting : Option (Opt × Option String)

/-- Nothing has been read. -/
def Progress.start : Progress := ⟨none, [], false, 0, none⟩

/-- Checks the option that waits, if there is one, and takes it in. -/
def Progress.settle (p : Progress) : Except UsageError Progress :=
  match p.waiting with
  | none => .ok p
  | some (_, none) => .error .invalidValue
  | some (o, some value) =>
    if (p.values.lookup o).isSome then .error .conflict
    else if o.isPath && value.isEmpty then .error .invalidValue
    else .ok { p with values := (o, value) :: p.values, waiting := none }

/-- Takes in an option, which has its value already or waits for it. -/
def Progress.takeOption (p : Progress) (o : Opt) (value : Option String) :
    Except UsageError Progress := do
  let p ← p.settle
  let p := { p with waiting := some (o, value) }
  if value.isSome then p.settle else pure p

/-- Takes in a flag. -/
def Progress.takeFlag (p : Progress) (f : Flag) : Except UsageError Progress := do
  let p ← p.settle
  match f with
  | .source => if p.source then throw .conflict else pure { p with source := true }
  | .verbose => pure { p with verbosity := p.verbosity + 1 }
  | .help => throw .help
  | .version => throw .version

/-- Takes in a word that is neither an option nor a flag, nor the value of one. -/
def Progress.takeTemplate (p : Progress) (word : String) : Except UsageError Progress := do
  if p.template.isSome then throw .unknownArgument
  else
    let p ← p.settle
    pure { p with template := some word }

/-- The value that is joined to a short option. -/
def joinedValue : List Char → Option String
  | [] => none
  | '=' :: value => some (String.ofList value)
  | value => some (String.ofList value)

/-- Takes in the letters of a word of short flags. -/
def Progress.takeLetters (p : Progress) : List Char → Except UsageError Progress
  | [] => .ok p
  | letter :: rest =>
    match Switch.ofShort? letter with
    | none => .error .unknownArgument
    | some (.opt o) => p.takeOption o (joinedValue rest)
    | some (.flag f) =>
      match p.takeFlag f with
      | .ok p => p.takeLetters rest
      | .error e => .error e

/-- Takes in a word of a long switch, without its hyphens. -/
def Progress.takeLong (p : Progress) (word : List Char) : Except UsageError Progress :=
  let name := word.takeWhile (· != '=')
  let value := (word.drop name.length).tail?.map String.ofList
  match Switch.ofLong? (String.ofList name), value with
  | none, _ => .error .unknownArgument
  | some (.opt o), value => p.takeOption o value
  | some (.flag f), none => p.takeFlag f
  | some (.flag _), some _ => .error .tooManyValues

/-- Takes in a word before `--`. -/
def Progress.takeWord (p : Progress) (word : String) : Except UsageError Progress :=
  match word.toList with
  | '-' :: '-' :: long => p.takeLong long
  | '-' :: letter :: letters => p.takeLetters (letter :: letters)
  | _ =>
    match p.waiting with
    | some (o, none) => .ok { p with waiting := some (o, some word) }
    | _ => p.takeTemplate word

/-- Takes in words. -/
def Progress.takeWords (p : Progress) : List String → Except UsageError Progress
  | [] => .ok p
  | "--" :: rest => rest.foldlM takeTemplate p
  | word :: rest => do
    let p ← p.takeWord word
    p.takeWords rest

/-- What has been read, when all has been. -/
def Progress.finish (p : Progress) : Except UsageError Arguments := do
  let p ← p.settle
  let value (o : Opt) := p.values.lookup o
  if (value .data).isSome && (value .dataFile).isSome then throw .conflict
  else
    match p.template with
    | none => throw .missingArgument
    | some template =>
      pure ⟨template, value .data, value .dataFile, value .settings, value .dataName,
        value .output, p.source, p.verbosity⟩

/-- Reads the words of a command line. -/
def Arguments.read (words : List String) : Except UsageError Arguments := do
  let p ← Progress.start.takeWords words
  p.finish

/-! ### What is reported -/

/-- How much a run reports about itself. -/
inductive Level where
  | error
  | info
  | debug
  | trace
  deriving DecidableEq, Repr

/-- The level that is asked for by a number of flags. -/
def Level.ofVerbosity : Nat → Level
  | 0 => .error
  | 1 => .info
  | 2 => .debug
  | _ => .trace

/-- The name of a level. -/
def Level.name : Level → String
  | .error => "ERROR"
  | .info => "INFO"
  | .debug => "DEBUG"
  | .trace => "TRACE"

end Stencil.CommandLine
