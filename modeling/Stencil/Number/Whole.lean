import Stencil.Number.Dyadic

/-!
# Number — Whole parts and remainders

The part of a number before the point, and the remainder of a division whose quotient is cut to a
whole number.  Both are computed exactly.
-/

namespace Stencil.Number

/-- A whole number, or a value below or above all of them. -/
inductive Whole where
  | below
  | at (n : Int)
  | above
  deriving DecidableEq, Repr

/-- The magnitude without what stands after the point. -/
def Dyadic.floor (d : Dyadic) : Nat :=
  let (num, den) := d.quotient
  num / den

/-- The part of a number before the point, rounded toward zero.  The undefined number counts as
zero. -/
def wholePart (x : Float) : Whole :=
  if x.isNaN then .at 0
  else if x.isInf then (if signBit x then .below else .above)
  else
    let n : Int := (Dyadic.ofFloat x).floor
    .at (if signBit x then -n else n)

/-- Whether a finite number has nothing after the point. -/
def isWhole (x : Float) : Bool :=
  let (num, den) := (Dyadic.ofFloat x).quotient
  x.isFinite && num % den == 0

/-- The remainder of `x` by `y` with the sign of `x`. -/
def remainder (x y : Float) : Float :=
  if x.isNaN || y.isNaN || x.isInf || y == 0 then nan
  else if y.isInf then x
  else
    let a := Dyadic.ofFloat x
    let b := Dyadic.ofFloat y
    let place := min a.exponent b.exponent
    let dividend := a.mantissa * Nat.pow 2 (a.exponent - place).toNat
    let divisor := b.mantissa * Nat.pow 2 (b.exponent - place).toNat
    let r := dividend % divisor
    withSign (signBit x) (nearest (r * Nat.pow 2 place.toNat) (Nat.pow 2 (-place).toNat))

end Stencil.Number
