/-!
# Text — Ranges of code points

A character class of a standard is held as a list of closed ranges of code points, in ascending
order.  `Ranges.has` looks a code point up, and `Strides.shift?` does the same for case maps,
whose entries move every code point of an arithmetic progression by the same distance.
-/

namespace Stencil.Text

/-- Closed ranges of code points, in ascending order. -/
abbrev Ranges := List (Nat × Nat)

/-- Whether a code point lies in one of the ranges.  The search ends at the first range that
starts beyond it. -/
def Ranges.has : Ranges → Nat → Bool
  | [], _ => false
  | (low, high) :: rest, n => if n < low then false else n ≤ high || Ranges.has rest n

/-- Entries `(first, last, step, image)` in ascending order: the code points from `first` to `last`
in steps of `step` are moved together, and `first` is moved to `image`. -/
abbrev Strides := List (Nat × Nat × Nat × Nat)

/-- The code point that `n` is moved to, if an entry covers it. -/
def Strides.shift? : Strides → Nat → Option Nat
  | [], _ => none
  | (first, last, step, image) :: rest, n =>
    if n < first then none
    else if n ≤ last && (n - first) % step == 0 then some (image + (n - first))
    else Strides.shift? rest n

end Stencil.Text
