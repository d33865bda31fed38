import LoxLexer.Json.Value

/-!
# Options

What a configuration may set: how tokens are printed, and whether diagnostics
are drawn into their source.  An option that is not set has a default, which
is chosen only when the option is used, so that options can be laid over
others before.
-/

namespace LoxLexer

inductive OutputFormat where
  | text
  | json
deriving DecidableEq, Repr

namespace OutputFormat

/-- The name used in configurations and on the command line. -/
def name : OutputFormat → String
  | .text => "text"
  | .json => "json"

def ofName? (name : String) : Option OutputFormat :=
  [OutputFormat.text, .json].find? fun format => format.name == name

end OutputFormat

structure Options where
  output : Option OutputFormat
  pretty : Option Bool
deriving DecidableEq, Repr

namespace Options

def unset : Options :=
  ⟨none, none⟩

/-- The format in force, which is plain text unless set. -/
def format (options : Options) : OutputFormat :=
  options.output.getD .text

/-- Whether diagnostics are drawn, which they are unless set. -/
def drawsDiagnostics (options : Options) : Bool :=
  options.pretty.getD true

/-- Lays `upper` over `lower`; what is set in `upper` wins. -/
def overlay (lower upper : Options) : Options where
  output := upper.output.or lower.output
  pretty := upper.pretty.or lower.pretty

theorem format_overlay (lower upper : Options) :
    (lower.overlay upper).format = upper.output.getD lower.format := by
  cases hupper : upper.output <;> simp [format, overlay, hupper]

theorem drawsDiagnostics_overlay (lower upper : Options) :
    (lower.overlay upper).drawsDiagnostics = upper.pretty.getD lower.drawsDiagnostics := by
  cases hupper : upper.pretty <;> simp [drawsDiagnostics, overlay, hupper]

/-- The options as they are set, with `null` for those that are not. -/
def toJson (options : Options) : Json :=
  .object [
    ("output", (options.output.map fun format => Json.string format.name).getD .null),
    ("pretty", (options.pretty.map Json.boolean).getD .null)]

end Options

end LoxLexer
