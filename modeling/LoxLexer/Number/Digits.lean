/-!
# Decimal digits

Only the ten ASCII digits count as digits.
-/

namespace LoxLexer

def isDigit (c : Char) : Bool :=
  '0' ≤ c && c ≤ '9'

def digitValue (c : Char) : Nat :=
  c.toNat - '0'.toNat

/-- The number that a row of digits stands for; no digits stand for zero. -/
def digitsValue (digits : List Char) : Nat :=
  digits.foldl (fun value c => 10 * value + digitValue c) 0

/-- A number in decimal digits, without leading zeros. -/
def decimalDigits (n : Nat) : List Char :=
  Nat.toDigits 10 n

def decimalText (n : Nat) : String :=
  String.ofList (decimalDigits n)

end LoxLexer
