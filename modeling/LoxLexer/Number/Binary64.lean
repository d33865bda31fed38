import LoxLexer.Number.Digits

/-!
# Double-precision numbers

A double is its pattern of 64 bits.  The lower 63 bits, read as a number, are
its magnitude: finite magnitudes count the non-negative doubles in order of
value, after them comes infinity, and all greater ones stand for no number.

Every finite value is a whole multiple of `2 ^ -1074`, so exact arithmetic on
values is arithmetic on natural numbers.  `nearest` finds the magnitude of the
double closest to a quotient; of two equally close ones it takes the even one,
and it goes to infinity where a double with one more exponent would follow.
-/

namespace LoxLexer

/-- A double-precision number, given by its bits. -/
structure Binary64 where
  bits : UInt64
deriving DecidableEq, Repr

namespace Binary64

def infiniteMagnitude : Nat := 2047 * Nat.pow 2 52

/-- The bits without the sign. -/
def magnitude (x : Binary64) : Nat :=
  x.bits.toNat % Nat.pow 2 63

def isNegative (x : Binary64) : Bool :=
  Nat.pow 2 63 ≤ x.bits.toNat

def isFinite (x : Binary64) : Bool :=
  x.magnitude < infiniteMagnitude

def isInfinite (x : Binary64) : Bool :=
  x.magnitude == infiniteMagnitude

/-- The value of a finite magnitude, as a multiple of `2 ^ -1074`. -/
def units (magnitude : Nat) : Nat :=
  if magnitude < Nat.pow 2 52 then
    magnitude
  else
    (Nat.pow 2 52 + magnitude % Nat.pow 2 52) * Nat.pow 2 (magnitude / Nat.pow 2 52 - 1)

/-- The whole number nearest to a quotient; of two equally near, the even one. -/
def divideToEven (numerator denominator : Nat) : Nat :=
  let quotient := numerator / denominator
  let twice := 2 * (numerator % denominator)
  if twice < denominator then
    quotient
  else if denominator < twice then
    quotient + 1
  else
    quotient + quotient % 2

/-- The magnitude of the double nearest to a quotient.  A quotient that
reaches `2 ^ 53` units keeps its 53 leading bits. -/
def nearest (numerator denominator : Nat) : Nat :=
  let scaled := numerator * Nat.pow 2 1074
  let dropped := Nat.log2 (scaled / denominator) - 52
  let kept := divideToEven scaled (denominator * Nat.pow 2 dropped)
  min (dropped * Nat.pow 2 52 + kept) infiniteMagnitude

def product (x y : Nat) : Nat :=
  nearest (units x * units y) (Nat.pow 2 2148)

def quotient (x y : Nat) : Nat :=
  nearest (units x) (units y)

def ofMagnitude (negative : Bool) (magnitude : Nat) : Binary64 :=
  ⟨UInt64.ofNat (if negative then Nat.pow 2 63 + magnitude else magnitude)⟩

end Binary64

end LoxLexer
