import LoxLexer.Json.Value
import LoxLexer.Text.Span
import LoxLexer.Token.Kind

/-!
# Tokens and their listings

A token carries the text it was read from, the value of a string or number,
and its place.  A listing has one line to a token; in it a missing value is
written `null`, a string as it stands, and a number with all its places.
-/

namespace LoxLexer

/-- The value of a string or number token. -/
inductive Literal where
  | text (value : String)
  | number (value : Binary64)
deriving DecidableEq, Repr

namespace Literal

/-- Numbers are written with all places, and whole ones without a fraction. -/
def numberLayout : Layout where
  tie := .up
  keepsFraction := false
  isPositional _ := true

def numberText (value : Binary64) : String :=
  if value.isFinite then String.ofList (numberLayout.write value)
  else if value.isInfinite then (if value.isNegative then "-inf" else "inf")
  else "NaN"

def listing : Literal → String
  | .text value => value
  | .number value => numberText value

def toJson : Literal → Json
  | .text value => .string value
  | .number value => .real value

end Literal

structure Token where
  kind : Kind
  lexeme : String
  literal : Option Literal
  /-- The line of the first character, counted from 1. -/
  line : UInt32
  span : Span
deriving DecidableEq, Repr

namespace Token

def endOfText (line position : UInt32) : Token where
  kind := .eof
  lexeme := ""
  literal := none
  line := line
  span := .empty position

def isEndOfText (token : Token) : Bool :=
  token.kind == .eof

def listing (token : Token) : String :=
  "[line " ++ decimalText token.line.toNat ++ "] " ++ token.kind.name ++ " " ++ token.lexeme ++
    " " ++ (token.literal.map Literal.listing).getD "null"

end Token

def Kind.toJson (kind : Kind) : Json :=
  .string kind.name

def Span.toJson (span : Span) : Json :=
  .object [("start", .integer span.start.toNat), ("length", .integer span.length.toNat)]

def Token.toJson (token : Token) : Json :=
  .object [
    ("kind", token.kind.toJson),
    ("lexeme", .string token.lexeme),
    ("literal", (token.literal.map Literal.toJson).getD .null),
    ("line", .integer token.line.toNat),
    ("span", token.span.toJson)]

def Token.listToJson (tokens : List Token) : Json :=
  .array (tokens.map Token.toJson)

end LoxLexer
