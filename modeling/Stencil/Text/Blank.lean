import Stencil.Text.Ranges

/-!
# Text — Blanks

The Unicode property White_Space, and the text that is left when blanks are taken off both ends.
-/

namespace Stencil.Text

/-- The code points with the property White_Space. -/
def blankRanges : Ranges :=
  [(0x9, 0xD), (0x20, 0x20), (0x85, 0x85), (0xA0, 0xA0), (0x1680, 0x1680), (0x2000, 0x200A),
   (0x2028, 0x2029), (0x202F, 0x202F), (0x205F, 0x205F), (0x3000, 0x3000)]

/-- Whether a character has the property White_Space. -/
def isBlank (c : Char) : Bool :=
  blankRanges.has c.toNat

/-- Blanks taken off the front. -/
def trimFront (cs : List Char) : List Char :=
  cs.dropWhile isBlank

/-- Blanks taken off both ends. -/
def trimChars (cs : List Char) : List Char :=
  (trimFront (trimFront cs).reverse).reverse

/-- The text without the blanks at its ends. -/
def trim (s : String) : String :=
  String.ofList (trimChars s.toList)

end Stencil.Text
