/-!
# Template — Text as a string literal

How text is written between single quotes in a script.  The backslash, the quote, the tab and all
characters that end a line are escaped, so that the literal stays on one line and ends at its own
quote.
-/

namespace Stencil.Literal

/-- How a character is written between single quotes. -/
def escapeChar (c : Char) : List Char :=
  match c with
  | '\\' => ['\\', '\\']
  | '\'' => ['\\', '\'']
  | '\r' => ['\\', 'r']
  | '\n' => ['\\', 'n']
  | '\t' => ['\\', 't']
  | '\u2028' => ['\\', 'u', '2', '0', '2', '8']
  | '\u2029' => ['\\', 'u', '2', '0', '2', '9']
  | c => [c]

/-- How characters are written between single quotes. -/
def escape (cs : List Char) : List Char :=
  cs.flatMap escapeChar

end Stencil.Literal
