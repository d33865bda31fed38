import LoxLexer.Json.Value
import LoxLexer.Options.Scalar

/-!
# Reading JSON

A text is read in two turns.  First it is split into symbols: brackets, commas, colons, and
scalar values, with any blanks between them (`splitSymbols`).  Then values are put together
from the symbols, with a record of the arrays and objects that are still open (`readValue`
and `readAfter`).

A number is whole if it has neither a sign nor a fraction nor an exponent.  Any other number
is the double nearest to its exact value.
-/

namespace LoxLexer

namespace Json

/-- A number as it is written.  No digits in the fraction stand for no point either. -/
structure Number where
  negative : Bool
  whole : List Char
  fraction : List Char
  exponent : Option Int
deriving DecidableEq, Repr

namespace Number

def isWhole (number : Number) : Bool :=
  !number.negative && number.fraction.isEmpty && number.exponent.isNone

/-- The exact value but for its sign, as a quotient. -/
def numerator (number : Number) : Nat :=
  digitsValue (number.whole ++ number.fraction) * Nat.pow 10 (number.exponent.getD 0).toNat

def denominator (number : Number) : Nat :=
  Nat.pow 10 (number.fraction.length + (-number.exponent.getD 0).toNat)

def value (number : Number) : Json :=
  if number.isWhole then
    .integer (digitsValue number.whole)
  else
    .real (.ofMagnitude number.negative (Binary64.nearest number.numerator number.denominator))

end Number

def readDigits (text : List Char) : Option (List Char × List Char) :=
  if (text.takeWhile isDigit).isEmpty then none
  else some (text.takeWhile isDigit, text.dropWhile isDigit)

def readSign (text : List Char) : Bool × List Char :=
  if text.head? = some '-' then (true, text.tail) else (false, text)

/-- Reads the digits before a point.  A zero in front is the only one. -/
def readWhole (text : List Char) : Option (List Char × List Char) :=
  if text.head? = some '0' then some (['0'], text.tail) else readDigits text

def readFraction (text : List Char) : Option (List Char × List Char) :=
  if text.head? = some '.' then readDigits text.tail else some ([], text)

def readPower (text : List Char) : Option (Int × List Char) :=
  if text.head? = some '-' then
    (readDigits text.tail).map fun (digits, rest) => (-(digitsValue digits : Int), rest)
  else
    (readDigits (if text.head? = some '+' then text.tail else text)).map
      fun (digits, rest) => ((digitsValue digits : Int), rest)

def readExponent (text : List Char) : Option (Option Int × List Char) :=
  if text.head? = some 'e' ∨ text.head? = some 'E' then
    (readPower text.tail).map fun (exponent, rest) => (some exponent, rest)
  else
    some (none, text)

def readNumber (text : List Char) : Option (Number × List Char) := do
  let (whole, afterWhole) ← readWhole (readSign text).2
  let (fraction, afterFraction) ← readFraction afterWhole
  let (exponent, rest) ← readExponent afterFraction
  return (⟨(readSign text).1, whole, fraction, exponent⟩, rest)

variable {text rest : List Char}

theorem readDigits_length_lt {digits : List Char}
    (hread : readDigits text = some (digits, rest)) : rest.length < text.length := by
  unfold readDigits at hread
  split at hread
  · contradiction
  · rename_i hdigits
    have hlength := congrArg List.length
      (List.takeWhile_append_dropWhile (p := isDigit) (l := text))
    rw [List.length_append] at hlength
    obtain ⟨-, rfl⟩ := Prod.mk.inj (Option.some.inj hread)
    have hpos := List.length_pos_iff.mpr (mt List.isEmpty_iff.mpr hdigits)
    omega

theorem readSign_length_le (text : List Char) : (readSign text).2.length ≤ text.length := by
  unfold readSign
  split <;> simp

theorem readWhole_length_lt {digits : List Char}
    (hread : readWhole text = some (digits, rest)) : rest.length < text.length := by
  unfold readWhole at hread
  split at hread
  · rename_i hzero
    obtain ⟨-, rfl⟩ := Prod.mk.inj (Option.some.inj hread)
    obtain ⟨more, rfl⟩ := List.head?_eq_some_iff.mp hzero
    simp
  · exact readDigits_length_lt hread

theorem readFraction_length_le {digits : List Char}
    (hread : readFraction text = some (digits, rest)) : rest.length ≤ text.length := by
  unfold readFraction at hread
  split at hread
  · have hlt := readDigits_length_lt hread
    rw [List.length_tail] at hlt
    omega
  · obtain ⟨-, rfl⟩ := Prod.mk.inj (Option.some.inj hread)
    exact Nat.le_refl _

theorem readPower_length_le {exponent : Int}
    (hread : readPower text = some (exponent, rest)) : rest.length ≤ text.length := by
  unfold readPower at hread
  split at hread
  · obtain ⟨⟨digits, _⟩, hdigits, hrest⟩ := Option.map_eq_some_iff.mp hread
    obtain ⟨-, rfl⟩ := Prod.mk.inj hrest
    have hlt := readDigits_length_lt hdigits
    rw [List.length_tail] at hlt
    omega
  · obtain ⟨⟨digits, _⟩, hdigits, hrest⟩ := Option.map_eq_some_iff.mp hread
    obtain ⟨-, rfl⟩ := Prod.mk.inj hrest
    have hlt := readDigits_length_lt hdigits
    split at hlt
    · rw [List.length_tail] at hlt
      omega
    · omega

theorem readExponent_length_le {exponent : Option Int}
    (hread : readExponent text = some (exponent, rest)) : rest.length ≤ text.length := by
  unfold readExponent at hread
  split at hread
  · obtain ⟨⟨power, _⟩, hpower, hrest⟩ := Option.map_eq_some_iff.mp hread
    obtain ⟨-, rfl⟩ := Prod.mk.inj hrest
    have hle := readPower_length_le hpower
    rw [List.length_tail] at hle
    omega
  · obtain ⟨-, rfl⟩ := Prod.mk.inj (Option.some.inj hread)
    exact Nat.le_refl _

theorem readNumber_length_lt {number : Number}
    (hread : readNumber text = some (number, rest)) : rest.length < text.length := by
  simp only [readNumber, Option.bind_eq_bind, Option.bind_eq_some_iff, Option.pure_def,
    Option.some.injEq, Prod.mk.injEq, Prod.exists] at hread
  obtain ⟨whole, afterWhole, hwhole, fraction, afterFraction, hfraction, exponent, _, hexponent,
    -, rfl⟩ := hread
  have hsign := readSign_length_le text
  have hwholeLt := readWhole_length_lt hwhole
  have hfractionLe := readFraction_length_le hfraction
  have hexponentLe := readExponent_length_le hexponent
  omega

theorem readString_length_lt {seen : List Char} {value : String}
    (hread : readString seen text = .ok (value, rest)) : rest.length < text.length := by
  fun_induction readString seen text with
  | case1 => contradiction
  | case2 seen text =>
      obtain ⟨-, rfl⟩ := Prod.mk.inj (Except.ok.inj hread)
      simp
  | case3 seen text c escaped hescape ih =>
      have hlt := readEscape_length_lt hescape
      have hrest := ih hread
      simp only [List.length_cons]
      omega
  | case4 => contradiction
  | case5 => contradiction
  | case6 seen c text _ _ _ ih =>
      have hrest := ih hread
      simp only [List.length_cons]
      omega

theorem readWord_length_le {word : List Char} (hread : readWord word text = .ok rest) :
    rest.length ≤ text.length := by
  fun_induction readWord word text with
  | case1 => exact Nat.le_of_eq (congrArg List.length (Except.ok.inj hread)).symm
  | case2 => contradiction
  | case3 c word text ih =>
      have hle := ih hread
      simp only [List.length_cons]
      omega
  | case4 => contradiction

inductive Symbol where
  | openArray
  | closeArray
  | openObject
  | closeObject
  | comma
  | colon
  | scalar (value : Json)

/-- The brackets, the comma and the colon. -/
def mark? : Char → Option Symbol
  | '[' => some .openArray
  | ']' => some .closeArray
  | '{' => some .openObject
  | '}' => some .closeObject
  | ',' => some .comma
  | ':' => some .colon
  | _ => none

/-- The words, each with the value that it stands for. -/
def word? : Char → Option (List Char × Json)
  | 'n' => some (['u', 'l', 'l'], .null)
  | 't' => some (['r', 'u', 'e'], .boolean true)
  | 'f' => some (['a', 'l', 's', 'e'], .boolean false)
  | _ => none

def readSymbol (c : Char) (text : List Char) : Option (Symbol × List Char) :=
  match mark? c, word? c with
  | some mark, _ => some (mark, text)
  | none, some (word, value) => (readWord word text).toOption.map fun rest => (.scalar value, rest)
  | none, none =>
    if c = '"' then
      (readString [] text).toOption.map fun (value, rest) => (.scalar (.string value), rest)
    else
      (readNumber (c :: text)).map fun (number, rest) => (.scalar number.value, rest)

theorem eq_ok_of_toOption {α ε : Type} {result : Except ε α} {value : α}
    (hvalue : result.toOption = some value) : result = .ok value := by
  cases result with
  | error reason => contradiction
  | ok found => exact congrArg Except.ok (Option.some.inj hvalue)

theorem readSymbol_length_le {c : Char} {symbol : Symbol}
    (hread : readSymbol c text = some (symbol, rest)) : rest.length ≤ text.length := by
  unfold readSymbol at hread
  split at hread
  · obtain ⟨-, rfl⟩ := Prod.mk.inj (Option.some.inj hread)
    exact Nat.le_refl _
  · obtain ⟨_, hword, hrest⟩ := Option.map_eq_some_iff.mp hread
    obtain ⟨-, rfl⟩ := Prod.mk.inj hrest
    exact readWord_length_le (eq_ok_of_toOption hword)
  · split at hread
    · obtain ⟨⟨value, _⟩, hstring, hrest⟩ := Option.map_eq_some_iff.mp hread
      obtain ⟨-, rfl⟩ := Prod.mk.inj hrest
      exact Nat.le_of_lt (readString_length_lt (eq_ok_of_toOption hstring))
    · obtain ⟨⟨number, _⟩, hnumber, hrest⟩ := Option.map_eq_some_iff.mp hread
      obtain ⟨-, rfl⟩ := Prod.mk.inj hrest
      exact Nat.le_of_lt_succ (readNumber_length_lt hnumber)

def splitSymbols (text : List Char) : Option (List Symbol) :=
  match text with
  | [] => some []
  | c :: text =>
    if isSpacing c then
      splitSymbols text
    else
      match _hread : readSymbol c text with
      | some (symbol, rest) => (splitSymbols rest).map (symbol :: ·)
      | none => none
termination_by text.length
decreasing_by
  · simp
  · exact Nat.lt_succ_of_le (readSymbol_length_le _hread)

/-- An array or object that is still open, with the items or members before the value that
is being read; the last one comes first. -/
inductive Opened where
  | array (items : List Json)
  | object (members : List (String × Json)) (name : String)

mutual

/-- Reads a value, inside of what is open. -/
def readValue (opened : List Opened) : List Symbol → Option Json
  | .scalar value :: symbols => readAfter opened value symbols
  | .openArray :: .closeArray :: symbols => readAfter opened (.array []) symbols
  | .openArray :: symbols => readValue (.array [] :: opened) symbols
  | .openObject :: .closeObject :: symbols => readAfter opened (.object []) symbols
  | .openObject :: symbols => readMember opened [] symbols
  | _ => none

/-- Reads a member, behind those that have been read; the last one comes first. -/
def readMember (opened : List Opened) (members : List (String × Json)) :
    List Symbol → Option Json
  | .scalar (.string name) :: .colon :: symbols =>
      readValue (.object members name :: opened) symbols
  | _ => none

/-- Goes on behind a value. -/
def readAfter (opened : List Opened) (value : Json) : List Symbol → Option Json
  | [] => if opened.isEmpty then some value else none
  | symbol :: symbols =>
    match opened, symbol with
    | .array items :: opened, .comma => readValue (.array (value :: items) :: opened) symbols
    | .array items :: opened, .closeArray =>
      readAfter opened (.array (value :: items).reverse) symbols
    | .object members name :: opened, .comma =>
      readMember opened ((name, value) :: members) symbols
    | .object members name :: opened, .closeObject =>
      readAfter opened (.object ((name, value) :: members).reverse) symbols
    | _, _ => none

end

/-- The value that a text stands for, if the text is JSON. -/
def read (text : String) : Option Json :=
  (splitSymbols text.toList).bind (readValue [])

end Json

end LoxLexer
