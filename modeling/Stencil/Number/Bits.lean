import Stencil.Number.Digits

/-!
# Number — Numbers as bits

A number written as the sixteen hexadecimal digits of its bits, which loses nothing: the two zeros
differ, and no rounding takes place.  All undefined numbers are written alike.
-/

namespace Stencil.Number

/-- The sixteen hexadecimal digits of a number's bits. -/
def bitsText (x : Float) : String :=
  if x.isNaN then "NaN"
  else String.ofList (padZeros 16 (Nat.toDigits 16 x.toBits.toNat))

/-- The number with the given sixteen digits. -/
def ofBitsText (s : String) : Float :=
  Float.ofBits (UInt64.ofNat (value 16 s.toList))

end Stencil.Number
