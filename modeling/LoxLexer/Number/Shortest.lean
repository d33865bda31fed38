import LoxLexer.Number.Binary64

/-!
# Shortest decimals

A decimal reads back as a given double when it lies between the points halfway
to the double's neighbours; the points themselves belong to it exactly when
its magnitude is even.  Of all decimals that read back, the shortest has the
fewest digits, and of those it is the nearest.

The search goes through ever finer decimal grids.  On each grid it tests the
two neighbours of the double, so it takes the first grid that has a point in
the interval.  All values are whole multiples of `10 ^ -1074`, where the
search ends at the latest, because every double lies on that grid.
-/

namespace LoxLexer

/-- The decimal `coefficient * 10 ^ exponent`. -/
structure Decimal where
  coefficient : Nat
  exponent : Int
deriving DecidableEq, Repr

/-- Which of two equally near decimals is taken. -/
inductive TieRule where
  /-- The greater one. -/
  | up
  /-- The one whose last digit is even. -/
  | even
deriving DecidableEq, Repr

namespace Decimal

/-- What the decimals that read back as one double have in common: the value
of the double, and twice the bounds of its interval. -/
structure Interval where
  value : Nat
  twiceLow : Nat
  twiceHigh : Nat
  closed : Bool

namespace Interval

/-- The interval of a finite magnitude other than zero, in units of `10 ^ -1074`. -/
def ofMagnitude (magnitude : Nat) : Interval where
  value := Binary64.units magnitude * Nat.pow 5 1074
  twiceLow := (Binary64.units (magnitude - 1) + Binary64.units magnitude) * Nat.pow 5 1074
  twiceHigh := (Binary64.units magnitude + Binary64.units (magnitude + 1)) * Nat.pow 5 1074
  closed := magnitude % 2 == 0

/-- Whether a decimal, in the same units, reads back. -/
def contains (interval : Interval) (decimal : Nat) : Bool :=
  if interval.closed then
    interval.twiceLow ≤ 2 * decimal && 2 * decimal ≤ interval.twiceHigh
  else
    interval.twiceLow < 2 * decimal && 2 * decimal < interval.twiceHigh

/-- The coarsest grid that is not coarser than `10 ^ step` units and has a
point in the interval, with the point nearest to the value. -/
def shortest (interval : Interval) (tie : TieRule) : Nat → Decimal
  | 0 => ⟨interval.value, -1074⟩
  | step + 1 =>
    let unit := Nat.pow 10 (step + 1)
    let below := interval.value / unit
    let exponent := (step + 1 : Nat) - (1074 : Int)
    match interval.contains (below * unit), interval.contains ((below + 1) * unit) with
    | false, false => shortest interval tie step
    | true, false => ⟨below, exponent⟩
    | false, true => ⟨below + 1, exponent⟩
    | true, true =>
      match compare (2 * interval.value) ((2 * below + 1) * unit), tie with
      | .lt, _ => ⟨below, exponent⟩
      | .gt, _ => ⟨below + 1, exponent⟩
      | .eq, .up => ⟨below + 1, exponent⟩
      | .eq, .even => ⟨below + below % 2, exponent⟩

end Interval

/-- The shortest decimal of a finite magnitude.  The search starts on a grid
whose first point after zero exceeds the value. -/
def shortest (tie : TieRule) (magnitude : Nat) : Decimal :=
  if magnitude = 0 then
    ⟨0, 0⟩
  else
    let interval := Interval.ofMagnitude magnitude
    interval.shortest tie ((Nat.log2 interval.value + 1) * 30103 / 100000 + 1)

end Decimal

end LoxLexer
