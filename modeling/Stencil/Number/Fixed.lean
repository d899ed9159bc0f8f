import Stencil.Number.Dyadic
import Stencil.Number.Digits

/-!
# Number — A fixed number of places

A number with a given count of digits after the point: the decimal nearest to its exact value, a
tie going away from zero.  Rounding to nearest sends ties to even digits, and so a tie is found
first: its exact value ends with a five in one more place, and the digits before the five go up by
one.
-/

namespace Stencil.Number

/-- How often two divides a natural, looking at no more than `fuel` places. -/
def twos : Nat → Nat → Nat
  | 0, _ => 0
  | fuel + 1, n => if n ≠ 0 ∧ n % 2 = 0 then twos fuel (n / 2) + 1 else 0

/-- Whether a magnitude lies exactly halfway between two neighbours with `places` digits after the
point.  Doubled and scaled it is an odd natural times a power of two, and it is a tie exactly when
that power is one. -/
def Dyadic.isTie (d : Dyadic) (places : Nat) : Bool :=
  d.mantissa != 0 && (twos 64 d.mantissa : Int) + d.exponent + places + 1 == 0

/-- A natural written with the point before its last `places` digits. -/
def pointed (n places : Nat) : List Char :=
  let digits := padZeros (places + 1) (decimalDigits n)
  let before := digits.length - places
  if places = 0 then digits else digits.take before ++ '.' :: digits.drop before

/-- A magnitude rounded to `places` digits after the point. -/
def Dyadic.rounded (d : Dyadic) (places : Nat) : List Char :=
  let (num, den) := d.quotient
  pointed (roundEven (num * Nat.pow 10 places) den) places

/-- A decimal without its last digit, and without the point if no digit is left after it. -/
def dropPlace (decimal : List Char) : List Char :=
  let kept := decimal.dropLast
  if kept.getLast? = some '.' then kept.dropLast else kept

/-- One more in the last place of a decimal that is given from its last character to its first:
nines become zeros, and the first other digit goes up. -/
def increment : List Char → List Char
  | [] => ['1']
  | '.' :: rest => '.' :: increment rest
  | '9' :: rest => '0' :: increment rest
  | c :: rest => Char.ofNat (c.toNat + 1) :: rest

/-- A magnitude with `places` digits after the point. -/
def Dyadic.fixed (d : Dyadic) (places : Nat) : List Char :=
  if d.isTie places then (increment (dropPlace (d.rounded (places + 1))).reverse).reverse
  else d.rounded places

/-- A finite number with `places` digits after the point. -/
def fixed (x : Float) (places : Nat) : String :=
  let sign := if x < 0 then ['-'] else []
  String.ofList (sign ++ (Dyadic.ofFloat x).fixed places)

end Stencil.Number
