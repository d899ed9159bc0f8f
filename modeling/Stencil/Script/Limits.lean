/-!
# Script — Limits

How large things may become: the nesting of a text, the nesting of calls, strings and arrays.
-/

namespace Stencil.Script

/-- The most statements and expressions that can stand inside one another. -/
def maxNesting : Nat := 512

/-- The most calls that can be open at once. -/
def maxCallDepth : Nat := 64

/-- The most bytes that a string built by a script may have. -/
def maxStringBytes : Nat := Nat.pow 2 29 - 24

/-- The greatest number that can be assigned to the length of an array. -/
def maxArrayLength : Nat := Nat.pow 2 32 - 1

/-- The most elements that an array may grow to. -/
def maxArrayElements : Nat := Nat.pow 2 22

end Stencil.Script
