/-!
# Number — Dyadic values

A finite number is `mantissa · 2^exponent` with a sign.  `Dyadic.ofFloat` reads the parts off the
bits, and `nearest` goes the other way: it rounds any quotient of naturals to the nearest number,
of two equally near ones to the one with an even mantissa.  Every conversion between numbers and
decimal text in this library goes through these two.
-/

namespace Stencil.Number

/-- The magnitude `mantissa · 2^exponent`. -/
structure Dyadic where
  mantissa : Nat
  exponent : Int
  deriving DecidableEq, Repr

/-- The magnitude that the bits of a finite number stand for. -/
def Dyadic.ofBits (bits : Nat) : Dyadic :=
  let biased : Nat := bits / Nat.pow 2 52 % Nat.pow 2 11
  let fraction := bits % Nat.pow 2 52
  if biased = 0 then ⟨fraction, -1074⟩ else ⟨Nat.pow 2 52 + fraction, (biased : Int) - 1075⟩

/-- The magnitude of a finite number. -/
def Dyadic.ofFloat (x : Float) : Dyadic :=
  Dyadic.ofBits x.toBits.toNat

/-- The quotient of naturals, numerator and denominator, that a magnitude is. -/
def Dyadic.quotient (d : Dyadic) : Nat × Nat :=
  (d.mantissa * Nat.pow 2 d.exponent.toNat, Nat.pow 2 (-d.exponent).toNat)

/-- Whether the sign bit is set. -/
def signBit (x : Float) : Bool :=
  Nat.pow 2 63 ≤ x.toBits.toNat

/-- The quotient rounded to an integer, a half going to the even neighbour. -/
def roundEven (num den : Nat) : Nat :=
  let q := num / den
  let r := num % den
  if 2 * r < den then q
  else if den < 2 * r then q + 1
  else if q % 2 = 0 then q else q + 1

/-- The binary exponent of the last place that a quotient is rounded to: its rounded mantissa has
53 bits, or the exponent is the least there is. -/
def lastPlace (num den : Nat) : Int :=
  let guess := (num.log2 : Int) - den.log2 - 53
  let wide := num * Nat.pow 2 (-guess).toNat / (den * Nat.pow 2 guess.toNat)
  max (if wide < Nat.pow 2 53 then guess else guess + 1) (-1074)

/-- The bits of the number nearest to a quotient, those of infinity when it is beyond all finite
numbers.  A mantissa that rounds up to the next power of two carries into the exponent field. -/
def nearestBits (num den : Nat) : Nat :=
  if num = 0 then 0
  else
    let place := lastPlace num den
    let mantissa := roundEven (num * Nat.pow 2 (-place).toNat) (den * Nat.pow 2 place.toNat)
    min ((place + 1074).toNat * Nat.pow 2 52 + mantissa) (2047 * Nat.pow 2 52)

/-- The number nearest to a quotient. -/
def nearest (num den : Nat) : Float :=
  Float.ofBits (UInt64.ofNat (nearestBits num den))

/-- The number nearest to a natural. -/
def ofNat (n : Nat) : Float :=
  nearest n 1

/-- A number with the sign set or taken from its magnitude. -/
def withSign (negative : Bool) (x : Float) : Float :=
  if negative then -x else x

/-- Positive infinity. -/
def infinity : Float := Float.ofBits 0x7FF0000000000000

/-- The undefined number. -/
def nan : Float := Float.ofBits 0x7FF8000000000000

end Stencil.Number
