import LoxLexer.Json.Value
import LoxLexer.Text.Measure
import LoxLexer.Text.Quoted

/-!
# Problems in a configuration

A configuration is refused for one problem, the first that reading runs into.
A problem has a place, which is counted in bytes: either exactly where reading
stopped, or some bytes further on, though never beyond the end of the text.
-/

namespace LoxLexer

inductive OptionName where
  | output
  | pretty
deriving DecidableEq, Repr

namespace OptionName

def name : OptionName → String
  | .output => "output"
  | .pretty => "pretty"

def ofName? (name : String) : Option OptionName :=
  [OptionName.output, .pretty].find? fun option => option.name == name

end OptionName

/-- A value of the wrong type. -/
inductive Offender where
  | null
  | boolean (value : Bool)
  | integer (value : Int)
  | real (value : Binary64)
  | string (value : String)
  | sequence
  | map
deriving DecidableEq, Repr

namespace Offender

def description : Offender → String
  | .null => "null"
  | .boolean value => "boolean `" ++ (if value then "true" else "false") ++ "`"
  | .integer value => "integer `" ++ integerText value ++ "`"
  | .real value => "floating point `" ++ String.ofList (Json.realText value) ++ "`"
  | .string value => "string " ++ Quoted.quote value
  | .sequence => "sequence"
  | .map => "map"
where
  integerText : Int → String
    | .ofNat value => decimalText value
    | .negSucc value => "-" ++ decimalText (value + 1)

end Offender

/-- What may stand in a place of a configuration. -/
inductive Expectation where
  | options
  | boolean
  | unit
deriving DecidableEq, Repr

namespace Expectation

def description : Expectation → String
  | .options => "struct ScanOptions"
  | .boolean => "a boolean"
  | .unit => "unit"

end Expectation

inductive Problem where
  | endOfValue
  | endOfObject
  | endOfList
  | endOfString
  | expectedValue
  | expectedWord
  | expectedColon
  | expectedCommaOrBrace
  | expectedCommaOrBracket
  | trailingComma
  | trailingCharacters
  | keyNotString
  | controlCharacter
  | invalidEscape
  | loneSurrogate
  | missingSurrogate
  | invalidNumber
  | numberOutOfRange
  | wrongType (found : Offender) (expected : Expectation)
  | wrongLength (length : Nat)
  | unknownField (name : String)
  | unknownFormat (name : String)
  | repeatedField (option : OptionName)
deriving DecidableEq, Repr

inductive ProblemClass where
  /-- The text ends too early. -/
  | incomplete
  /-- The text is JSON so far, but no configuration. -/
  | mismatch
  /-- The text is no JSON. -/
  | malformed
deriving DecidableEq, Repr

namespace Problem

def message : Problem → String
  | .endOfValue => "EOF while parsing a value"
  | .endOfObject => "EOF while parsing an object"
  | .endOfList => "EOF while parsing a list"
  | .endOfString => "EOF while parsing a string"
  | .expectedValue => "expected value"
  | .expectedWord => "expected ident"
  | .expectedColon => "expected `:`"
  | .expectedCommaOrBrace => "expected `,` or `\x7d`"
  | .expectedCommaOrBracket => "expected `,` or `]`"
  | .trailingComma => "trailing comma"
  | .trailingCharacters => "trailing characters"
  | .keyNotString => "key must be a string"
  | .controlCharacter =>
    "control character (\\u0000-\\u001F) found while parsing a string"
  | .invalidEscape => "invalid escape"
  | .loneSurrogate => "lone leading surrogate in hex escape"
  | .missingSurrogate => "unexpected end of hex escape"
  | .invalidNumber => "invalid number"
  | .numberOutOfRange => "number out of range"
  | .wrongType found expected =>
    "invalid type: " ++ found.description ++ ", expected " ++ expected.description
  | .wrongLength length =>
    "invalid length " ++ decimalText length ++ ", expected struct ScanOptions with 2 elements"
  | .unknownField name =>
    "unknown field `" ++ name ++ "`, expected `output` or `pretty`"
  | .unknownFormat name =>
    "unknown variant `" ++ name ++ "`, expected `text` or `json`"
  | .repeatedField option => "duplicate field `" ++ option.name ++ "`"

def toClass : Problem → ProblemClass
  | .endOfValue | .endOfObject | .endOfList | .endOfString => .incomplete
  | .wrongType .. | .wrongLength _ | .unknownField _ | .unknownFormat _
  | .repeatedField _ => .mismatch
  | _ => .malformed

end Problem

/-- Where reading stopped, and why.  The problem is placed `ahead` bytes after
the start of `rest`, the text that was left. -/
structure Stop where
  problem : Problem
  rest : List Char
  ahead : Nat
deriving DecidableEq, Repr

/-- A place in a text: the line, counted from 1, and the bytes before it on
that line. -/
structure Position where
  line : Nat
  column : Nat
deriving DecidableEq, Repr

namespace Position

/-- The place `offset` bytes behind `position`, where `text` begins. -/
def advance (position : Position) (offset : Nat) : List Char → Position
  | [] => position
  | c :: text =>
    if offset < c.utf8Size then
      ⟨position.line, position.column + offset⟩
    else if c = '\n' then
      advance ⟨position.line + 1, 0⟩ (offset - 1) text
    else
      advance ⟨position.line, position.column + c.utf8Size⟩ (offset - c.utf8Size) text

/-- The place of an offset in a text. -/
def ofOffset (text : List Char) (offset : Nat) : Position :=
  advance ⟨1, 0⟩ offset text

end Position

structure Complaint where
  problem : Problem
  position : Position
deriving DecidableEq, Repr

namespace Complaint

/-- Places the problem that stopped the reading of a text. -/
def ofStop (text : List Char) (stop : Stop) : Complaint where
  problem := stop.problem
  position := .ofOffset text (byteLength text - byteLength stop.rest + stop.ahead)

def message (complaint : Complaint) : String :=
  complaint.problem.message ++ " at line " ++ decimalText complaint.position.line ++
    " column " ++ decimalText complaint.position.column

end Complaint

end LoxLexer
