import LoxLexer.Options.Basic
import LoxLexer.Text.Terminal

/-!
# Command-line arguments

Arguments are read from left to right, and the first thing that settles the
call wins: a usage problem, or a request for help or for the version.

A value that stands in an argument of its own is held back.  It is looked at
only when the next switch that is known, the next script or the end comes.  An
argument that is not known at all is refused before that.
-/

namespace LoxLexer

inductive Switch where
  | format
  | config
  | plain
  | help
  | version
deriving DecidableEq, Repr

namespace Switch

def longName : Switch → String
  | .format => "format"
  | .config => "config"
  | .plain => "plain"
  | .help => "help"
  | .version => "version"

def ofLongName? (name : List Char) : Option Switch :=
  [Switch.format, .config, .plain, .help, .version].find? fun switch =>
    switch.longName.toList == name

def ofLetter? : Char → Option Switch
  | 'c' => some .config
  | 'h' => some .help
  | 'V' => some .version
  | _ => none

/-- The switch as messages show it. -/
def description : Switch → String
  | .format => "--format <FORMAT>"
  | .config => "--config <CONFIG>"
  | switch => "--" ++ switch.longName

end Switch

inductive UsageProblem where
  | unexpectedArgument (argument : String)
  | unexpectedValue (switch : Switch) (value : String)
  | missingValue (description : String)
  | invalidFormat (value : String)
  | repeatedSwitch (switch : Switch)
deriving DecidableEq, Repr

namespace UsageProblem

/-- The message about a problem, with what a terminal shows of the argument. -/
def message : UsageProblem → String
  | .unexpectedArgument argument =>
    "unexpected argument '" ++ Terminal.plainText argument ++ "' found"
  | .unexpectedValue switch value =>
    "unexpected value '" ++ Terminal.plainText value ++ "' for '" ++ switch.description ++
      "' found; no more were expected"
  | .missingValue description =>
    "a value is required for '" ++ description ++ "' but none was supplied"
  | .invalidFormat value =>
    "invalid value '" ++ Terminal.plainText value ++ "' for '--format <FORMAT>'"
  | .repeatedSwitch switch =>
    "the argument '" ++ switch.description ++ "' cannot be used multiple times"

end UsageProblem

structure Arguments where
  format : Option OutputFormat
  config : Option String
  plain : Bool
  scripts : List String
deriving DecidableEq, Repr

/-- What ends the reading of arguments before their end. -/
inductive Halt where
  | problem (problem : UsageProblem)
  | help
  | version
deriving DecidableEq, Repr

/-- A switch that takes a value. -/
inductive ValueSwitch where
  | format
  | config
deriving DecidableEq, Repr

def ValueSwitch.toSwitch : ValueSwitch → Switch
  | .format => .format
  | .config => .config

inductive Pending where
  | nothing
  /-- A switch, with its value if that has come. -/
  | value (switch : ValueSwitch) (value : Option String)
  | scripts (names : List String)
deriving DecidableEq, Repr

namespace Arguments

def none : Arguments :=
  ⟨.none, .none, false, []⟩

def give (arguments : Arguments) (switch : ValueSwitch) (value : String) :
    Except Halt Arguments :=
  match switch with
  | .format =>
    if arguments.format.isSome then .error (.problem (.repeatedSwitch .format))
    else if value.isEmpty then .error (.problem (.missingValue Switch.format.description))
    else
      match OutputFormat.ofName? value with
      | some format => .ok { arguments with format := some format }
      | .none => .error (.problem (.invalidFormat value))
  | .config =>
    if arguments.config.isSome then .error (.problem (.repeatedSwitch .config))
    else if value.isEmpty then .error (.problem (.missingValue Switch.config.description))
    else .ok { arguments with config := some value }

def settle (arguments : Arguments) : Pending → Except Halt Arguments
  | .nothing => .ok arguments
  | .value switch .none => .error (.problem (.missingValue switch.toSwitch.description))
  | .value switch (some value) => arguments.give switch value
  | .scripts names =>
    if names.any String.isEmpty then .error (.problem (.missingValue "[SCRIPT]..."))
    else .ok { arguments with scripts := arguments.scripts ++ names }

def flag (arguments : Arguments) : Switch → Except Halt Arguments
  | .help => .error .help
  | .version => .error .version
  | _ =>
    if arguments.plain then .error (.problem (.repeatedSwitch .plain))
    else .ok { arguments with plain := true }

end Arguments

structure Call where
  arguments : Arguments
  pending : Pending
deriving DecidableEq, Repr

namespace Call

/-- A switch that takes a value, with its value if that is part of the same
argument. -/
def takeSwitch (call : Call) (switch : ValueSwitch) (attached : Option String) :
    Except Halt Call := do
  let arguments ← call.arguments.settle call.pending
  match attached with
  | some value => return ⟨← arguments.give switch value, .nothing⟩
  | none => return ⟨arguments, .value switch none⟩

def takeFlag (call : Call) (switch : Switch) : Except Halt Call := do
  let arguments ← call.arguments.settle call.pending
  return ⟨← arguments.flag switch, .nothing⟩

/-- An argument that begins with two dashes, which are left out here. -/
def takeLong (call : Call) (argument : List Char) : Except Halt Call :=
  let name := argument.takeWhile (· != '=')
  let attached :=
    match argument.dropWhile (· != '=') with
    | [] => none
    | _ :: value => some (String.ofList value)
  match Switch.ofLongName? name, attached with
  | none, _ => .error (.problem (.unexpectedArgument (String.ofList ('-' :: '-' :: name))))
  | some .format, attached => call.takeSwitch .format attached
  | some .config, attached => call.takeSwitch .config attached
  | some switch, none => call.takeFlag switch
  | some switch, some value => .error (.problem (.unexpectedValue switch value))

/-- An argument of letters behind one dash, which is left out here.  What
follows a letter that takes a value is that value, perhaps behind an equals
sign. -/
def takeLetters (call : Call) : List Char → Except Halt Call
  | [] => .ok call
  | letter :: letters =>
    match Switch.ofLetter? letter with
    | none => .error (.problem (.unexpectedArgument (String.ofList ['-', letter])))
    | some .config =>
      match letters with
      | [] => call.takeSwitch .config none
      | '=' :: value => call.takeSwitch .config (some (String.ofList value))
      | value => call.takeSwitch .config (some (String.ofList value))
    | some switch => do
      let call ← call.takeFlag switch
      call.takeLetters letters

def takeScript (call : Call) (name : String) : Except Halt Call :=
  match call.pending with
  | .scripts names => .ok ⟨call.arguments, .scripts (names ++ [name])⟩
  | _ => do
    let arguments ← call.arguments.settle call.pending
    return ⟨arguments, .scripts [name]⟩

/-- An argument that is no switch: the value of the switch before it, or the
name of a script. -/
def takePlain (call : Call) (argument : String) : Except Halt Call :=
  match call.pending with
  | .value switch none => .ok ⟨call.arguments, .value switch (some argument)⟩
  | _ => call.takeScript argument

/-- Reads one argument in front of a double dash. -/
def take (call : Call) (argument : String) : Except Halt Call :=
  match argument.toList with
  | '-' :: '-' :: rest => call.takeLong rest
  | '-' :: letter :: rest => call.takeLetters (letter :: rest)
  | _ => call.takePlain argument

/-- Reads arguments.  After a double dash all are scripts. -/
def takeAll (call : Call) : List String → Except Halt Call
  | [] => .ok call
  | argument :: arguments =>
    if argument = "--" then
      arguments.foldlM takeScript call
    else
      match call.take argument with
      | .ok call => call.takeAll arguments
      | .error halt => .error halt

end Call

def Arguments.read (arguments : List String) : Except Halt Arguments := do
  let call ← Call.takeAll ⟨.none, .nothing⟩ arguments
  call.arguments.settle call.pending

end LoxLexer
