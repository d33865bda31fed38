import LoxLexer.Number.Digits
import LoxLexer.Text.Placeholder
import LoxLexer.Text.Span

/-!
# Diagnostics

A diagnostic is a message about a line, and perhaps about a span of it.  Its
text comes from a template, and its code and category from the same message.
-/

namespace LoxLexer

inductive Category where
  | warning
  | error
deriving DecidableEq, Repr

def Category.name : Category → String
  | .warning => "Warning"
  | .error => "Error"

structure Message where
  code : UInt32
  category : Category
  template : String
deriving DecidableEq, Repr

namespace Message

def unexpectedCharacter : Message :=
  ⟨1001, .error, "Unexpected character: \x7b0\x7d"⟩

def unterminatedString : Message :=
  ⟨1002, .error, "Unterminated string."⟩

def emptySourceFile : Message :=
  ⟨1100, .warning, "Source file '\x7b0\x7d' is empty."⟩

end Message

structure Diagnostic where
  /-- The line it is about, counted from 1. -/
  line : UInt32
  span : Option Span
  text : String
  code : UInt32
  category : Category
deriving DecidableEq, Repr

namespace Diagnostic

/-- A message about a line, with its places filled in. -/
def ofMessage (line : UInt32) (message : Message) (arguments : List String)
    (span : Option Span) : Diagnostic where
  line := line
  span := span
  text := Placeholder.fill message.template arguments
  code := message.code
  category := message.category

def isError (diagnostic : Diagnostic) : Bool :=
  diagnostic.category == .error

theorem isError_iff (diagnostic : Diagnostic) :
    diagnostic.isError = true ↔ diagnostic.category = .error :=
  beq_iff_eq

def listing (diagnostic : Diagnostic) : String :=
  "[line " ++ decimalText diagnostic.line.toNat ++ "] " ++ diagnostic.category.name ++ ": " ++
    diagnostic.text

end Diagnostic

end LoxLexer
