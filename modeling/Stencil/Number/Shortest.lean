import Stencil.Number.Dyadic
import Stencil.Number.Digits

/-!
# Number — Shortest digits

The fewest decimal digits that read back as a given number, and of those the nearest to it; of two
equally near ones the greater.  For each count of digits the two neighbours of the number on that
decimal grid are tested, exactly, against the interval of reals that round to it.
-/

namespace Stencil.Number

/-- The decimal `0.d₁d₂… · 10^point`, written with its digits. -/
structure Decimal where
  digits : List Char
  point : Int
  deriving DecidableEq, Repr

/-- The reals that round to a magnitude, in quarters of its last place: from `low` to `high`, the
ends included when the mantissa is even.  Below a power of two the neighbour is half as far. -/
structure Interval where
  low : Nat
  high : Nat
  closed : Bool

/-- The interval of a magnitude. -/
def Dyadic.interval (d : Dyadic) : Interval :=
  let narrow := d.mantissa = Nat.pow 2 52 ∧ d.exponent > -1074
  ⟨4 * d.mantissa - (if narrow then 1 else 2), 4 * d.mantissa + 2, d.mantissa % 2 = 0⟩

/-- Whether `n · 10^grid` lies in the interval of `d`. -/
def Dyadic.readsBack (d : Dyadic) (grid : Int) (n : Nat) : Bool :=
  let quarter := d.exponent - 2
  let left := n * Nat.pow 10 grid.toNat * Nat.pow 2 (-quarter).toNat
  let scale := Nat.pow 2 quarter.toNat * Nat.pow 10 (-grid).toNat
  let i := d.interval
  let low := i.low * scale
  let high := i.high * scale
  (low < left || (i.closed && low == left)) && (left < high || (i.closed && left == high))

/-- The number of digits before the point, or minus the number of zeros after it: the least `k`
with `d < 10^k`. -/
def Dyadic.point (d : Dyadic) : Int :=
  let (num, den) := d.quotient
  if den ≤ num then (decimalDigits (num / den)).length
  else
    -- `den / num` rounded up has as many digits as there are places before the first digit
    let inverse := (den - 1) / num
    1 - ((decimalDigits inverse).length : Int)

/-- The value on the grid of `count` digits that reads back and is nearest to `d`. -/
def Dyadic.onGrid? (d : Dyadic) (point : Int) (count : Nat) : Option (Nat × Int) :=
  let grid := point - count
  let (num, den) := d.quotient
  let num := num * Nat.pow 10 (-grid).toNat
  let den := den * Nat.pow 10 grid.toNat
  let below := num / den
  let up := below + 1
  match d.readsBack grid below, d.readsBack grid up with
  | true, true => some (if 2 * (num % den) < den then below else up, grid)
  | true, false => some (below, grid)
  | false, true => some (up, grid)
  | false, false => none

/-- The first grid with a hit, counting from `count` digits on. -/
def Dyadic.search (d : Dyadic) (point : Int) : Nat → Nat → Nat × Int
  | 0, _ =>
    -- the exact decimal value, for the case that no grid had a hit
    (d.mantissa * Nat.pow 2 d.exponent.toNat * Nat.pow 5 (-d.exponent).toNat, min d.exponent 0)
  | left + 1, count =>
    match d.onGrid? point count with
    | some hit => hit
    | none => d.search point left (count + 1)

/-- The digits without the zeros at their end, with at least one left. -/
def dropZeros (digits : List Char) : List Char :=
  match (digits.reverse.dropWhile (· == '0')).reverse with
  | [] => ['0']
  | kept => kept

/-- The shortest decimal of a magnitude other than zero. -/
def Dyadic.shortest (d : Dyadic) : Decimal :=
  let (n, grid) := d.search d.point 17 1
  let digits := decimalDigits n
  ⟨dropZeros digits, grid + digits.length⟩

end Stencil.Number
