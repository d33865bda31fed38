import LoxLexer.Command.Outcome
import LoxLexer.Diagnostic.Collection
import LoxLexer.Options.Basic
import LoxLexer.Scan

/-!
# Showing a scan

The tokens of a source are printed, and its diagnostics become notices, with a
count behind them if any is an error.  On a terminal diagnostics are drawn,
unless the options ask for plain lines.
-/

namespace LoxLexer

namespace OutputFormat

def print (format : OutputFormat) (tokens : List Token) : String :=
  match format with
  | .text => String.join (tokens.map fun token => token.listing ++ "\n")
  | .json => (Token.listToJson tokens).prettyText ++ "\n"

/-- The report of tokens that cannot be printed, for the given reason. -/
def failureMessage (format : OutputFormat) (reason : String) : String :=
  match format with
  | .text => reason
  | .json => "cannot serialize tokens: " ++ reason

end OutputFormat

namespace Collection

def summary (held : Collection) : String :=
  "Found " ++ decimalText held.errorCount ++ (if held.errorCount = 1 then " error." else " errors.")

/-- The notices about the diagnostics of a source, and the count of errors if
there are any. -/
def notices (held : Collection) (draws : Bool) (sourceName source : String) :
    Except Fault (List Notice) := do
  let shown ←
    if draws then
      held.entries.mapM fun diagnostic =>
        Notice.drawing <$> Report.ofDiagnostic diagnostic sourceName source
    else
      pure (held.entries.map fun diagnostic => Notice.line diagnostic.listing)
  return shown ++ (if held.hasErrors then [.line held.summary] else [])

end Collection

/-- A source after scanning: what is printed, and what goes to the error stream. -/
structure Shown where
  output : String
  notices : List Notice
  hasErrors : Bool
deriving DecidableEq, Repr

/-- Scans a source, behind diagnostics that were reported about it before. -/
def showSource (options : Options) (terminal : Bool) (sourceName source : String)
    (before : Collection) : Except Fault Shown := do
  let found ← scan source
  let held := before.addAll found.diagnostics
  let notices ← held.notices (options.drawsDiagnostics && terminal) sourceName source
  return ⟨options.format.print found.tokens, notices, held.hasErrors⟩

end LoxLexer
