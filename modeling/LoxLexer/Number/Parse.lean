import LoxLexer.Number.Binary64

/-!
# Doubles in decimal notation

A text stands for a double if it has digits, with a point before, between or behind them
and an exponent or without, or if it names infinity or the value that is no number.  Each of
these may have a sign.  Any other text stands for no double.
-/

namespace LoxLexer

namespace Binary64

/-- The value that is no number. -/
def nan : Binary64 := ⟨0x7ff8000000000000⟩

/-- Takes a sign off a text, and tells whether it is a minus. -/
def splitSign : List Char → Bool × List Char
  | '+' :: text => (false, text)
  | '-' :: text => (true, text)
  | text => (false, text)

/-- The exponent that ends a number, which is zero where there is none. -/
def exponent? : List Char → Option Int
  | [] => some 0
  | c :: text =>
    let (negative, digits) := splitSign text
    if (c = 'e' ∨ c = 'E') ∧ digits ≠ [] ∧ digits.all isDigit then
      some (if negative then -digitsValue digits else digitsValue digits)
    else
      none

/-- Takes digits and a point off a text: those in front of the point and those behind it. -/
def splitPoint (text : List Char) : List Char × List Char × List Char :=
  match text.dropWhile isDigit with
  | '.' :: rest => (text.takeWhile isDigit, rest.takeWhile isDigit, rest.dropWhile isDigit)
  | rest => (text.takeWhile isDigit, [], rest)

/-- The magnitude of a number without a sign. -/
def number? (text : List Char) : Option Nat :=
  let (whole, fraction, rest) := splitPoint text
  if whole ++ fraction = [] then
    none
  else
    (exponent? rest).map fun exponent =>
      nearest (digitsValue (whole ++ fraction) * Nat.pow 10 exponent.toNat)
        (Nat.pow 10 (fraction.length + (-exponent).toNat))

/-- The magnitude of a text without a sign.  Names are read in either case. -/
def magnitude? (text : List Char) : Option Nat :=
  let name := text.map Char.toLower
  if name = ['i', 'n', 'f'] ∨ name = ['i', 'n', 'f', 'i', 'n', 'i', 't', 'y'] then
    some infiniteMagnitude
  else if name = ['n', 'a', 'n'] then
    some nan.magnitude
  else
    number? text

/-- The double that a text stands for. -/
def parse? (text : String) : Option Binary64 :=
  let (negative, text) := splitSign text.toList
  (magnitude? text).map (ofMagnitude negative)

end Binary64

end LoxLexer
