import LoxLexer.Number.Layout

/-!
# JSON values and their texts

A value is written in one of two spacings: compact, without any blank, or
pretty, with one item or member to a line and two blanks of indentation for
each level.  Members keep their order.  A double that is not finite has no
JSON form and is written as `null`.
-/

namespace LoxLexer

inductive Json where
  | null
  | boolean (value : Bool)
  | integer (value : Nat)
  | real (value : Binary64)
  | string (value : String)
  | array (items : List Json)
  | object (members : List (String × Json))

namespace Json

/-- Doubles take all places from `0.00001` up to, but without, `10 ^ 16`, and
always show a fraction or an exponent. -/
def realLayout : Layout where
  tie := .even
  keepsFraction := true
  isPositional leading := -5 ≤ leading && leading < 16

def realText (value : Binary64) : List Char :=
  if value.isFinite then realLayout.write value else ['n', 'u', 'l', 'l']

/-- The digit of a number below 16, in lower case. -/
def hexDigit (n : Nat) : Char :=
  Nat.digitChar n

/-- How a character stands inside quotes. -/
def escape (c : Char) : List Char :=
  if c = '"' then ['\\', '"']
  else if c = '\\' then ['\\', '\\']
  else if c = '\x08' then ['\\', 'b']
  else if c = '\t' then ['\\', 't']
  else if c = '\n' then ['\\', 'n']
  else if c = '\x0c' then ['\\', 'f']
  else if c = '\r' then ['\\', 'r']
  else if c.toNat < 0x20 then
    ['\\', 'u', '0', '0', hexDigit (c.toNat / 16), hexDigit (c.toNat % 16)]
  else [c]

def quote (text : List Char) : List Char :=
  '"' :: (text.flatMap escape ++ ['"'])

/-- What is written between the tokens of a value. -/
structure Spacing where
  /-- The break in front of whatever stands at a given depth. -/
  lineBreak : Nat → List Char
  afterColon : List Char

def Spacing.compact : Spacing where
  lineBreak _ := []
  afterColon := []

def Spacing.pretty : Spacing where
  lineBreak depth := '\n' :: List.replicate (2 * depth) ' '
  afterColon := [' ']

mutual

def write (spacing : Spacing) (depth : Nat) : Json → List Char
  | .null => ['n', 'u', 'l', 'l']
  | .boolean true => ['t', 'r', 'u', 'e']
  | .boolean false => ['f', 'a', 'l', 's', 'e']
  | .integer value => decimalDigits value
  | .real value => realText value
  | .string value => quote value.toList
  | .array [] => ['[', ']']
  | .array (item :: items) =>
    '[' :: (spacing.lineBreak (depth + 1) ++ write spacing (depth + 1) item ++
      writeItems spacing (depth + 1) items ++ spacing.lineBreak depth ++ [']'])
  | .object [] => ['{', '}']
  | .object ((name, value) :: members) =>
    '{' :: (spacing.lineBreak (depth + 1) ++ quote name.toList ++
      ':' :: (spacing.afterColon ++ write spacing (depth + 1) value) ++
      writeMembers spacing (depth + 1) members ++ spacing.lineBreak depth ++ ['}'])

/-- The items after the first, each with its comma. -/
def writeItems (spacing : Spacing) (depth : Nat) : List Json → List Char
  | [] => []
  | item :: items =>
    ',' :: (spacing.lineBreak depth ++ write spacing depth item ++
      writeItems spacing depth items)

/-- The members after the first, each with its comma. -/
def writeMembers (spacing : Spacing) (depth : Nat) : List (String × Json) → List Char
  | [] => []
  | (name, value) :: members =>
    ',' :: (spacing.lineBreak depth ++ quote name.toList ++
      ':' :: (spacing.afterColon ++ write spacing depth value) ++
      writeMembers spacing depth members)

end

def compactText (value : Json) : String :=
  String.ofList (value.write .compact 0)

def prettyText (value : Json) : String :=
  String.ofList (value.write .pretty 0)

end Json

end LoxLexer
