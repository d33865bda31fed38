import LoxLexer.Diagnostic.Report
import LoxLexer.Files.Basic

/-!
# Outcomes of a call

A call leaves a status, what it printed, and notices for the error stream.  A
notice is a line, or a report to be drawn into its source; how a drawing looks
is left to whoever shows the notices.
-/

namespace LoxLexer

inductive Status where
  | success
  | badCall
  | tooManyScripts
  | errorsFound
  | noInput
  | transferFailed
  | badConfiguration
deriving DecidableEq, Repr

def Status.code : Status → UInt32
  | .success => 0
  | .badCall => 2
  | .tooManyScripts => 64
  | .errorsFound => 65
  | .noInput => 66
  | .transferFailed => 74
  | .badConfiguration => 78

/-- Something for the error stream: a line, or a report to be drawn. -/
inductive Notice where
  | line (text : String)
  | drawing (report : Report)
deriving DecidableEq, Repr

namespace Notice

/-- The line that names an error, marked by colour on a terminal. -/
def error (terminal : Bool) (message : String) : Notice :=
  .line ((if terminal then "\x1b[1m\x1b[31merror\x1b[0m" else "error") ++ ": " ++ message)

end Notice

structure Outcome where
  status : Status
  output : String
  notices : List Notice
deriving DecidableEq, Repr

structure World where
  files : Files
  input : ByteArray
  terminal : Bool
  /-- Whether nothing can be written to the output. -/
  outputFull : Bool

def outputFullMessage : String := "No space left on device (os error 28)"

end LoxLexer
