import LoxLexer.Files.Basic
import LoxLexer.Options.Reader

/-!
# Configuration files

A configuration is a file of its own, either named or looked for under its
usual name in a directory, where it may be absent.
-/

namespace LoxLexer

/-- Why there are no options to be had from a file. -/
inductive OptionsFailure where
  | unreadable (path : String) (failure : ReadFailure)
  | invalid (complaint : Complaint)
deriving DecidableEq, Repr

/-- The report of a file that cannot be read. -/
def unreadableMessage (path : String) (failure : ReadFailure) : String :=
  "cannot read '" ++ path ++ "': " ++ failure.message

namespace OptionsFailure

def message : OptionsFailure → String
  | .unreadable path failure => unreadableMessage path failure
  | .invalid complaint => "invalid configuration: " ++ complaint.message

end OptionsFailure

namespace Options

def fileName : String := "lox.json"

def ofText (content : String) : Except OptionsFailure Options :=
  match Options.parse content with
  | .ok options => .ok options
  | .error complaint => .error (.invalid complaint)

def load (files : Files) (path : String) : Except OptionsFailure Options :=
  match files.readText path with
  | .ok content => ofText content
  | .error failure => .error (.unreadable path failure)

/-- The options that the configuration in a directory sets, if it has one. -/
def find (files : Files) (directory : String) : Except OptionsFailure (Option Options) :=
  let path := Files.join directory fileName
  if files.isFile path then
    match load files path with
    | .ok options => .ok (some options)
    | .error failure => .error failure
  else
    .ok none

end Options

end LoxLexer
