import Stencil.Number.Shortest

/-!
# Number — Numbers as text

The two written forms of a number.  `text` is what a script prints: positional as long as the point
stands at most twenty-one places after the first digit and at most five before it, otherwise one
digit before the point and a signed exponent.  `plain` is positional throughout.
-/

namespace Stencil.Number

/-- Positional notation of a decimal. -/
def Decimal.positional (d : Decimal) : List Char :=
  let count : Int := d.digits.length
  if d.point ≤ 0 then '0' :: '.' :: (List.replicate (-d.point).toNat '0' ++ d.digits)
  else if count ≤ d.point then d.digits ++ List.replicate (d.point - count).toNat '0'
  else d.digits.take d.point.toNat ++ '.' :: d.digits.drop d.point.toNat

/-- One digit before the point, the others after it, and the exponent with its sign. -/
def Decimal.scientific (d : Decimal) : List Char :=
  let exponent := d.point - 1
  let sign := if d.point > 0 then '+' else '-'
  let tail := 'e' :: sign :: decimalDigits exponent.natAbs
  match d.digits with
  | first :: second :: rest => first :: '.' :: second :: rest ++ tail
  | digits => digits ++ tail

/-- Whether scripts print a decimal positionally. -/
def Decimal.isPositional (d : Decimal) : Bool :=
  -6 < d.point && d.point ≤ 21

/-- The written form of a positive finite number, before its sign. -/
def magnitudeText (x : Float) : List Char :=
  let d := (Dyadic.ofFloat x).shortest
  if d.isPositional then d.positional else d.scientific

/-- A number as a script prints it. -/
def text (x : Float) : String :=
  if x.isNaN then "NaN"
  else if x.isInf then (if signBit x then "-Infinity" else "Infinity")
  else if x == 0 then "0"
  else String.ofList ((if signBit x then ['-'] else []) ++ magnitudeText x)

/-- A number that is not negative, always positional. -/
def plain (x : Float) : String :=
  if x.isNaN then "NaN"
  else if x.isInf then "inf"
  else if x == 0 then "0"
  else String.ofList (Dyadic.ofFloat x).shortest.positional

end Stencil.Number
