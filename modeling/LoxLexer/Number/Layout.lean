import LoxLexer.Number.Shortest

/-!
# Layouts of decimals

A layout says how a finite double is written: which of two equally near
shortest decimals it takes, whether a whole number keeps a point and a zero,
and for which leading exponents it writes all places.  Any other number is
written with one digit before the point and a signed exponent.
-/

namespace LoxLexer

structure Layout where
  tie : TieRule
  keepsFraction : Bool
  /-- The power of ten of the first digit decides. -/
  isPositional : Int → Bool

namespace Layout

/-- All places of the number whose first digit has the place `10 ^ leading`. -/
def positional (layout : Layout) (digits : List Char) (leading : Int) : List Char :=
  match leading with
  | .negSucc zeros => '0' :: '.' :: (List.replicate zeros '0' ++ digits)
  | .ofNat leading =>
    let whole := digits.take (leading + 1)
    let fraction := digits.drop (leading + 1)
    let padding := List.replicate (leading + 1 - digits.length) '0'
    if fraction.isEmpty then
      whole ++ padding ++ (if layout.keepsFraction then ['.', '0'] else [])
    else
      whole ++ '.' :: fraction

/-- The exponent with its sign, which is never left out. -/
def exponentText : Int → List Char
  | .ofNat exponent => 'e' :: '+' :: decimalDigits exponent
  | .negSucc exponent => 'e' :: '-' :: decimalDigits (exponent + 1)

/-- One digit before the point, and the exponent after the others. -/
def scientific (digits : List Char) (leading : Int) : List Char :=
  let fraction := digits.drop 1
  digits.take 1 ++ (if fraction.isEmpty then [] else '.' :: fraction) ++ exponentText leading

def decimal (layout : Layout) (x : Decimal) : List Char :=
  let digits := decimalDigits x.coefficient
  let leading := x.exponent + (digits.length - 1 : Nat)
  if layout.isPositional leading then
    layout.positional digits leading
  else
    scientific digits leading

def write (layout : Layout) (x : Binary64) : List Char :=
  let text := layout.decimal (Decimal.shortest layout.tie x.magnitude)
  if x.isNegative then '-' :: text else text

end Layout

end LoxLexer
