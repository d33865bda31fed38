import LoxLexer.Command.Arguments
import LoxLexer.Command.Prompt
import LoxLexer.Command.Script

/-!
# The command

A call scans one script, or answers the lines of its input one by one.  The
options in force come from the switches and, below them, from a configuration,
which is looked for in the working directory unless the call names one.
-/

namespace LoxLexer

namespace Arguments

def options (arguments : Arguments) : Options where
  output := arguments.format
  pretty := if arguments.plain then some false else .none

/-- The options in force: those of the configuration, below those of the switches. -/
def resolve (arguments : Arguments) (files : Files) : Except OptionsFailure Options :=
  match arguments.config with
  | some path => (Options.load files path).map fun lower => lower.overlay arguments.options
  | .none =>
    (Options.find files ".").map fun found => (found.getD .unset).overlay arguments.options

/-- The options in force, or the outcome of a call that fails before it comes
to its script. -/
def prepare (arguments : Arguments) (files : Files) (terminal : Bool) :
    Except Outcome Options :=
  if 1 < arguments.scripts.length then
    .error ⟨.tooManyScripts, "", [.line "Usage: lox [script]"]⟩
  else
    match arguments.resolve files with
    | .ok options => .ok options
    | .error failure => .error ⟨.badConfiguration, "", [.error terminal failure.message]⟩

def perform (arguments : Arguments) (world : World) : Except Fault Outcome :=
  match arguments.prepare world.files world.terminal with
  | .error outcome => .ok outcome
  | .ok options =>
    match arguments.scripts.head? with
    | some name => Script.run world options name
    | .none => Prompt.run world options

end Arguments

namespace Command

def versionText : String := "lox 0.1.0\n"

def helpLines : List String := [
  "Scan Lox source into tokens",
  "",
  "Usage: lox [OPTIONS] [SCRIPT]...",
  "",
  "Arguments:",
  "  [SCRIPT]...  Script to scan. Starts an interactive prompt when omitted",
  "",
  "Options:",
  "      --format <FORMAT>  How to print the tokens [possible values: text, json]",
  "  -c, --config <CONFIG>  Path to a lox.json (defaults to ./lox.json when present)",
  "      --plain            Print diagnostics as plain `[line N] Error: ...` lines",
  "  -h, --help             Print help",
  "  -V, --version          Print version"]

def helpText : String :=
  String.join (helpLines.map fun line => line ++ "\n")

/-- The outcome of a call that is over once its arguments have been read.  A
full output loses what is printed here without notice. -/
def haltOutcome (outputFull : Bool) : Halt → Outcome
  | .problem problem => ⟨.badCall, "", [.error false problem.message]⟩
  | .help => ⟨.success, if outputFull then "" else helpText, []⟩
  | .version => ⟨.success, if outputFull then "" else versionText, []⟩

def run (arguments : List String) (world : World) : Except Fault Outcome :=
  match Arguments.read arguments with
  | .ok arguments => arguments.perform world
  | .error halt => .ok (haltOutcome world.outputFull halt)

end Command

end LoxLexer
