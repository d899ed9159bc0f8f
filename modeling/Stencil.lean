import Stencil.CommandLine.Arguments
import Stencil.CommandLine.Run
import Stencil.Json.Document
import Stencil.Json.Numeral
import Stencil.Json.Quoted
import Stencil.Json.Reader
import Stencil.Main
import Stencil.Markup.Entity
import Stencil.Number.Bits
import Stencil.Number.Digits
import Stencil.Number.Dyadic
import Stencil.Number.Fixed
import Stencil.Number.Reading
import Stencil.Number.Shortest
import Stencil.Number.Whole
import Stencil.Number.Written
import Stencil.Pattern.CharSet
import Stencil.Pattern.Find
import Stencil.Pattern.Read
import Stencil.Pattern.Tree
import Stencil.Proofs.Alike.Courses
import Stencil.Proofs.Alike.Declared
import Stencil.Proofs.Alike.Heap
import Stencil.Proofs.Alike.Hoisting
import Stencil.Proofs.Alike.Values
import Stencil.Proofs.Compile.Bindings
import Stencil.Proofs.Compile.Builders
import Stencil.Proofs.Compile.Closed
import Stencil.Proofs.Compile.Collide
import Stencil.Proofs.Compile.Entry
import Stencil.Proofs.Compile.Interleaved
import Stencil.Proofs.Compile.Named
import Stencil.Proofs.Compile.Output
import Stencil.Proofs.Compile.Positions
import Stencil.Proofs.Compile.Prelude
import Stencil.Proofs.Compile.Reload
import Stencil.Proofs.Compile.Spliced
import Stencil.Proofs.Compile.Unread
import Stencil.Proofs.Grammar.Beside
import Stencil.Proofs.Grammar.Canonical
import Stencil.Proofs.Grammar.Definitions
import Stencil.Proofs.Grammar.Faults
import Stencil.Proofs.Grammar.Formed
import Stencil.Proofs.Grammar.Forms
import Stencil.Proofs.Grammar.Height
import Stencil.Proofs.Grammar.Inverse
import Stencil.Proofs.Grammar.Lines
import Stencil.Proofs.Grammar.Local
import Stencil.Proofs.Grammar.Precedence
import Stencil.Proofs.Grammar.Productions
import Stencil.Proofs.Grammar.Progress
import Stencil.Proofs.Grammar.Shapes
import Stencil.Proofs.Grammar.Steps
import Stencil.Proofs.Grammar.Walk
import Stencil.Proofs.Grammar.Whole
import Stencil.Proofs.Jobs.Activations
import Stencil.Proofs.Jobs.Away
import Stencil.Proofs.Jobs.Blocks
import Stencil.Proofs.Jobs.Bypasses
import Stencil.Proofs.Jobs.Constants
import Stencil.Proofs.Jobs.Contract
import Stencil.Proofs.Jobs.Course
import Stencil.Proofs.Jobs.Fallbacks
import Stencil.Proofs.Jobs.Fits
import Stencil.Proofs.Jobs.Limits
import Stencil.Proofs.Jobs.Log
import Stencil.Proofs.Jobs.Orderly
import Stencil.Proofs.Jobs.Paths
import Stencil.Proofs.Jobs.Rounds
import Stencil.Proofs.Jobs.Scoping
import Stencil.Proofs.Markup.Escaped
import Stencil.Proofs.Names.Clashes
import Stencil.Proofs.Names.Free
import Stencil.Proofs.Names.Mentions
import Stencil.Proofs.Names.Rewrites
import Stencil.Proofs.Numbers.Digits
import Stencil.Proofs.Numbers.Finite
import Stencil.Proofs.Numbers.Fixed
import Stencil.Proofs.Numbers.Layout
import Stencil.Proofs.Numbers.Nearest
import Stencil.Proofs.Numbers.Numeral
import Stencil.Proofs.Numbers.Order
import Stencil.Proofs.Numbers.Readers
import Stencil.Proofs.Numbers.Shortest
import Stencil.Proofs.Numbers.Sizes
import Stencil.Proofs.Numbers.Texts
import Stencil.Proofs.Numbers.Whole
import Stencil.Proofs.Pieces.Leftmost
import Stencil.Proofs.Pieces.OnePass
import Stencil.Proofs.Pieces.Standard
import Stencil.Proofs.Pieces.Tiles
import Stencil.Proofs.Runs.Adds
import Stencil.Proofs.Runs.Appended
import Stencil.Proofs.Runs.Bindings
import Stencil.Proofs.Runs.Calls
import Stencil.Proofs.Runs.Compound
import Stencil.Proofs.Runs.Data
import Stencil.Proofs.Runs.Declared
import Stencil.Proofs.Runs.Discipline
import Stencil.Proofs.Runs.Documents
import Stencil.Proofs.Runs.Heap
import Stencil.Proofs.Runs.Helper
import Stencil.Proofs.Runs.Keeps
import Stencil.Proofs.Runs.Related
import Stencil.Proofs.Runs.Scopes
import Stencil.Proofs.Runs.Settles
import Stencil.Proofs.Runs.Text
import Stencil.Proofs.Runs.Trace
import Stencil.Proofs.Runs.Unbound
import Stencil.Proofs.Sheets.Basic
import Stencil.Proofs.Sheets.Compiled
import Stencil.Proofs.Sheets.Exposed
import Stencil.Proofs.Sheets.Lines
import Stencil.Proofs.Sheets.Meaning
import Stencil.Proofs.Sheets.Runs
import Stencil.Proofs.Sheets.Script
import Stencil.Proofs.Sheets.Tokens
import Stencil.Proofs.Sheets.Trees
import Stencil.Proofs.Sheets.Values
import Stencil.Proofs.Tokens.Bare
import Stencil.Proofs.Tokens.Ends
import Stencil.Proofs.Tokens.Escapes
import Stencil.Proofs.Tokens.Lexemes
import Stencil.Proofs.Tokens.Located
import Stencil.Proofs.Tokens.Numbers
import Stencil.Proofs.Tokens.Placed
import Stencil.Proofs.Tokens.Quoted
import Stencil.Proofs.Tokens.Reads
import Stencil.Proofs.Tokens.Respelled
import Stencil.Proofs.Tokens.Spelled
import Stencil.Proofs.Tokens.Steady
import Stencil.Proofs.Tokens.Units
import Stencil.Proofs.Tokens.Within
import Stencil.Proofs.Tokens.Words
import Stencil.Proofs.Twin.Data
import Stencil.Proofs.Twin.Heap
import Stencil.Proofs.Twin.Import
import Stencil.Proofs.Twin.Names
import Stencil.Proofs.Twin.Runs
import Stencil.Proofs.Twin.Values
import Stencil.Proofs.Values.Conversions
import Stencil.Proofs.Values.Cuts
import Stencil.Proofs.Values.Enumerations
import Stencil.Proofs.Values.Equality
import Stencil.Proofs.Values.Places
import Stencil.Proofs.Values.Slices
import Stencil.Proofs.Values.Slots
import Stencil.Script.Conversion
import Stencil.Script.Evaluate
import Stencil.Script.Fault
import Stencil.Script.Function
import Stencil.Script.Limits
import Stencil.Script.Method
import Stencil.Script.Names
import Stencil.Script.Operator
import Stencil.Script.ParseError
import Stencil.Script.Property
import Stencil.Script.Store
import Stencil.Script.Token
import Stencil.Script.Token.Scan
import Stencil.Script.Tree
import Stencil.Script.Tree.Outline
import Stencil.Script.Tree.Parse
import Stencil.Script.Value
import Stencil.Settings.Basic
import Stencil.Settings.FromJson
import Stencil.Settings.FromYaml
import Stencil.Settings.Load
import Stencil.Template.Body
import Stencil.Template.Compile
import Stencil.Template.Delimiter
import Stencil.Template.Directive
import Stencil.Template.Literal
import Stencil.Template.Piece
import Stencil.Template.Variable
import Stencil.Text.Blank
import Stencil.Text.CaseFold
import Stencil.Text.CaseMap
import Stencil.Text.Letter
import Stencil.Text.Numeral
import Stencil.Text.Path
import Stencil.Text.Position
import Stencil.Text.Ranges
import Stencil.Text.Search
import Stencil.Text.Word
import Stencil.Yaml.Node
import Stencil.Yaml.Read
import Stencil.Yaml.Scalar
