import Stencil.Number.Reading

/-!
# Json — Numerals

A numeral as it is written, and the two ways to its value: `Numeral.nearest` rounds the decimal
once, and `Numeral.stepwise` rounds the digits to a number first and then multiplies or divides it
by a power of ten, which can be off in the last place.  Both know no value for a numeral beyond all
finite numbers.
-/

namespace Stencil.Json
open Stencil

/-- The parts of a numeral. -/
structure Numeral where
  negative : Bool
  whole : List Char
  fraction : List Char
  exponentNegative : Bool
  exponent : List Char

/-- Whether a numeral has neither a fraction nor an exponent. -/
def Numeral.isInteger (n : Numeral) : Bool :=
  n.fraction.isEmpty && n.exponent.isEmpty

/-- The written exponent. -/
def Numeral.power (n : Numeral) : Int :=
  let e : Int := Number.value 10 n.exponent
  if n.exponentNegative then -e else e

/-- The nearest number. -/
def Numeral.nearest (n : Numeral) : Option Float :=
  let mantissa := Number.value 10 (n.whole ++ n.fraction)
  let x := Number.scaled mantissa (n.power - n.fraction.length)
  if x.isFinite then some (Number.withSign n.negative x) else none

/-- Digits added to a natural as long as it stays within sixty-four bits, and the digits left. -/
def takeDigits (sum : Nat) : List Char → Nat × List Char
  | [] => (sum, [])
  | c :: rest =>
    let next := sum * 10 + (Number.digitValue? 10 c).getD 0
    if next < UInt64.size then takeDigits next rest else (sum, c :: rest)

/-- A number multiplied by a power of ten, in one step up to 10^308 and otherwise downwards in
several; `none` if that is infinite. -/
def scaleBy : (rounds : Nat) → Float → Int → Option Float
  | 0, x, _ => some x
  | rounds + 1, x, e =>
    if e.natAbs ≤ 308 then
      let power := Number.scaled 1 e.natAbs
      if 0 ≤ e then
        let y := x * power
        if y.isInf then none else some y
      else some (x / power)
    else if x == 0 then some x
    else if 0 ≤ e then none
    else scaleBy rounds (x / Number.scaled 1 308) (e + 308)

/-- The number that digits and power of ten give when each is rounded by itself.  Digits beyond
sixty-four bits count by their number only before the point, and not at all after it. -/
def Numeral.stepwise (n : Numeral) : Option Float :=
  let (whole, overWhole) := takeDigits 0 n.whole
  let (sum, overFraction) := takeDigits whole n.fraction
  let start : Int := (overWhole.length : Int) - (n.fraction.length - overFraction.length : Nat)
  let magnitude :=
    if n.exponent.isEmpty then
      if n.isInteger && overWhole.isEmpty then some (Number.ofNat sum)
      else scaleBy 16 (Number.ofNat sum) start
    else if Number.value 10 n.exponent < Nat.pow 2 31 then
      let limit : Int := Nat.pow 2 31
      scaleBy 16 (Number.ofNat sum) (max (-limit) (min (limit - 1) (start + n.power)))
    else if sum != 0 && !n.exponentNegative then none
    else some (Number.nearest 0 1)
  magnitude.map (Number.withSign n.negative)

end Stencil.Json
