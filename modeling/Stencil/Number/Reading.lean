import Stencil.Number.Dyadic
import Stencil.Number.Digits

/-!
# Number — Reading decimals

A decimal numeral is digits with an optional point among or around them, and an optional exponent.
Its value is rounded to the nearest number.  Exponents so large or small that the result can only
be infinite or zero are not computed.
-/

namespace Stencil.Number

/-- The number nearest to `mantissa · 10^exponent`.  A natural of `n` digits is less than `10^n`,
so a numeral whose first digit stands beyond the 310th place is infinite, and one that begins after
the 330th place behind the point is zero. -/
def scaled (mantissa : Nat) (exponent : Int) : Float :=
  let point := (decimalDigits mantissa).length + exponent
  if mantissa = 0 ∨ point < -330 then nearest 0 1
  else if point > 310 then infinity
  else nearest (mantissa * Nat.pow 10 exponent.toNat) (Nat.pow 10 (-exponent).toNat)

/-- Splits the digits off the front of a text. -/
def spanDigits (cs : List Char) : List Char × List Char :=
  (cs.takeWhile Char.isDigit, cs.dropWhile Char.isDigit)

/-- The optional exponent at the end of a numeral: `e`, an optional sign, and digits. -/
def exponent? : List Char → Option Int
  | [] => some 0
  | mark :: rest =>
    if mark == 'e' || mark == 'E' then
      match rest with
      | '-' :: digits => (value? 10 digits).map (fun n => -(n : Int))
      | '+' :: digits => (value? 10 digits).map (fun n => (n : Int))
      | digits => (value? 10 digits).map (fun n => (n : Int))
    else none

/-- The value of a numeral without a sign. -/
def unsigned? (cs : List Char) : Option Float :=
  let (before, rest) := spanDigits cs
  let (after, rest) :=
    match rest with
    | '.' :: tail => spanDigits tail
    | other => ([], other)
  if before.isEmpty && after.isEmpty then none
  else
    (exponent? rest).map fun e => scaled (value 10 (before ++ after)) (e - after.length)

/-- The value of a numeral with an optional sign. -/
def signed? : List Char → Option Float
  | '-' :: rest => (unsigned? rest).map (withSign true)
  | '+' :: rest => unsigned? rest
  | cs => unsigned? cs

end Stencil.Number
