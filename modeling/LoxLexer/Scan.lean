import LoxLexer.Diagnostic.Basic
import LoxLexer.Element.Place
import LoxLexer.Number.Parse
import LoxLexer.Token.Basic

/-!
# Scanning

A scan turns each element of a source into a token, a diagnostic or nothing,
and closes with the token that marks the end of the text.  A string that spans
lines belongs to the line of its opening quote; one that is never closed is
reported on the last line.

Line numbers, comment depths and spans have to fit into words.  A source of
less than `2 ^ 32 - 1` bytes never runs into a fault.
-/

namespace LoxLexer

inductive Finding where
  | nothing
  | token (token : Token)
  | diagnostic (diagnostic : Diagnostic)
deriving DecidableEq, Repr

namespace Finding

def token? : Finding → Option Token
  | .token found => some found
  | _ => none

def diagnostic? : Finding → Option Diagnostic
  | .diagnostic found => some found
  | _ => none

end Finding

/-- What a form with a given text comes to, from its line, the line at its end
and its span. -/
def Element.finding (element : Element) (line lastLine : UInt32) (span : Span) : Finding :=
  let lexeme := String.ofList element.text
  match element.form with
  | .blank | .lineComment | .blockComment | .openComment => .nothing
  | .string =>
    let inside := String.ofList (element.text.drop 1).dropLast
    .token ⟨.string, lexeme, some (.text inside), line, span⟩
  | .openString =>
    .diagnostic (.ofMessage lastLine .unterminatedString [] (some span))
  | .number =>
    let value := (Binary64.parse? lexeme).getD .nan
    .token ⟨.number, lexeme, some (.number value), line, span⟩
  | .word => .token ⟨Kind.ofWord lexeme, lexeme, none, line, span⟩
  | .symbol kind => .token ⟨kind, lexeme, none, line, span⟩
  | .stray => .diagnostic (.ofMessage line .unexpectedCharacter [lexeme] (some span))

/-- What an element comes to where it stands. -/
def Placed.finding (placed : Placed) : Except Fault Finding := do
  let line ← Word.ofNat placed.line
  let lastLine ← Word.ofNat placed.lastLine
  let _ ← Word.ofNat placed.element.depth
  let span ← Span.ofOffsets placed.start placed.stop
  return placed.element.finding line lastLine span

structure Scan where
  tokens : List Token
  diagnostics : List Diagnostic
deriving DecidableEq, Repr

def scan (source : String) : Except Fault Scan := do
  let text := source.toList
  let findings ← (placedElements text).mapM Placed.finding
  let lastLine ← Word.ofNat (1 + lineFeeds text)
  let endOfText := Token.endOfText lastLine (Span.clamp (byteLength text))
  return {
    tokens := findings.filterMap Finding.token? ++ [endOfText]
    diagnostics := findings.filterMap Finding.diagnostic? }

end LoxLexer
