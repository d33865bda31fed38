import LoxLexer.Options.Problem

/-!
# Numbers in a configuration

No option is a number, so a number is read only to name it in a message.  Its
digits are gathered in a 64-bit word as long as they fit.  A whole number that
fits is exact; any other is the word scaled by a power of ten, with one
rounding for the word and one for each scaling, and may differ from the double
nearest to its digits.
-/

namespace LoxLexer

/-- A number as it is named in a message. -/
inductive Numeral where
  | integer (value : Int)
  | real (value : Binary64)
deriving DecidableEq, Repr

namespace Numeral

/-- Appends digits to a number while it stays within a limit, and returns the
number with the digits that are left. -/
def gather (limit number : Nat) : List Char → Nat × List Char
  | [] => (number, [])
  | digit :: digits =>
    if 10 * number + digitValue digit ≤ limit then
      gather limit (10 * number + digitValue digit) digits
    else
      (number, digit :: digits)

def greatestWord : Nat := Nat.pow 2 64 - 1

def greatestExponent : Nat := Nat.pow 2 31 - 1

/-- The magnitude of a power of ten up to `10 ^ 308`. -/
def powerOfTen (exponent : Nat) : Nat :=
  Binary64.nearest (Nat.pow 10 exponent) 1

/-- Divides a magnitude by a power of ten, at most by `10 ^ 308` at a time. -/
def scaleDown (magnitude exponent : Nat) : Nat :=
  if exponent ≤ 308 then
    Binary64.quotient magnitude (powerOfTen exponent)
  else if magnitude = 0 then
    0
  else
    scaleDown (Binary64.quotient magnitude (powerOfTen 308)) (exponent - 308)
termination_by exponent

/-- The magnitude of a number times a power of ten, if it is finite. -/
def scale (number : Nat) (exponent : Int) : Option Nat :=
  let magnitude := Binary64.nearest number 1
  match exponent with
  | .negSucc exponent => some (scaleDown magnitude (exponent + 1))
  | .ofNat exponent =>
    if exponent ≤ 308 then
      let scaled := Binary64.product magnitude (powerOfTen exponent)
      if scaled < Binary64.infiniteMagnitude then some scaled else none
    else if magnitude = 0 then
      some 0
    else
      none

/-- The number with the given sign, digits and power of ten, which ends where
`rest` begins. -/
def ofParts (negative : Bool) (number : Nat) (exponent : Int) (rest : List Char) :
    Except Stop (Numeral × List Char) :=
  match scale number exponent with
  | some magnitude => .ok (.real (.ofMagnitude negative magnitude), rest)
  | none => .error ⟨.numberOutOfRange, rest, 0⟩

def exponent (negative : Bool) (number : Nat) (start : Int) (text : List Char) :
    Except Stop (Numeral × List Char) :=
  match text with
  | '+' :: text => digits false text
  | '-' :: text => digits true text
  | text => digits false text
where
  digits (down : Bool) : List Char → Except Stop (Numeral × List Char)
    | [] => .error ⟨.endOfValue, [], 0⟩
    | c :: text =>
      if isDigit c then
        let rest := text.dropWhile isDigit
        let (value, left) := gather greatestExponent 0 (c :: text.takeWhile isDigit)
        match left with
        | [] => ofParts negative number (if down then start - value else start + value) rest
        | _ :: _ =>
          if down || number == 0 then
            .ok (.real (.ofMagnitude negative 0), rest)
          else
            .error ⟨.numberOutOfRange, left ++ rest, 1⟩
      else
        .error ⟨.invalidNumber, c :: text, 1⟩

/-- Reads what may follow the digits before and after the point. -/
def afterFraction (negative : Bool) (number : Nat) (start : Int) :
    List Char → Except Stop (Numeral × List Char)
  | 'e' :: text | 'E' :: text => exponent negative number start text
  | text => ofParts negative number start text

def fraction (negative : Bool) (number : Nat) (start : Int) (text : List Char) :
    Except Stop (Numeral × List Char) :=
  match text.takeWhile isDigit, text with
  | [], [] => .error ⟨.endOfValue, [], 0⟩
  | [], text => .error ⟨.invalidNumber, text, 1⟩
  | digits, text =>
    let (number, left) := gather greatestWord number digits
    let used := digits.length - left.length
    afterFraction negative number (start - used) (text.dropWhile isDigit)

/-- A whole number, if its sign leaves it one.  Zero and numbers below
`-2 ^ 63` lose that with a minus sign. -/
def ofWhole (negative : Bool) (number : Nat) : Numeral :=
  if negative then
    if number = 0 ∨ Nat.pow 2 63 < number then
      .real (.ofMagnitude true (Binary64.nearest number 1))
    else
      .integer (-number)
  else
    .integer number

/-- Reads what may follow the digits before the point, of which the last
`dropped` ones are not part of the number. -/
def afterWhole (negative : Bool) (number dropped : Nat) :
    List Char → Except Stop (Numeral × List Char)
  | '.' :: text => fraction negative number dropped text
  | 'e' :: text | 'E' :: text => exponent negative number dropped text
  | text =>
    if dropped = 0 then
      .ok (ofWhole negative number, text)
    else
      ofParts negative number dropped text

def read (negative : Bool) : List Char → Except Stop (Numeral × List Char)
  | [] => .error ⟨.endOfValue, [], 0⟩
  | '0' :: text =>
    match text with
    | c :: _ =>
      if isDigit c then .error ⟨.invalidNumber, text, 1⟩ else afterWhole negative 0 0 text
    | [] => afterWhole negative 0 0 []
  | c :: text =>
    if isDigit c then
      let (number, left) := gather greatestWord 0 (c :: text.takeWhile isDigit)
      afterWhole negative number left.length (text.dropWhile isDigit)
    else
      .error ⟨.invalidNumber, c :: text, 1⟩

end Numeral

end LoxLexer
