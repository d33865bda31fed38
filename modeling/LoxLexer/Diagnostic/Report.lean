import LoxLexer.Diagnostic.Basic

/-!
# Reports

A report is a diagnostic made ready to be drawn into its source: it has a code
with letters and, where the diagnostic has a span, a label on those bytes.
-/

namespace LoxLexer

/-- A remark on a range of bytes. -/
structure Label where
  offset : Nat
  length : Nat
  text : String
deriving DecidableEq, Repr

structure Report where
  message : String
  code : String
  severity : Category
  label : Option Label
  sourceName : String
  source : String
deriving DecidableEq, Repr

namespace Report

/-- The label of a diagnostic.  The end of the span has to be a word. -/
def labelOf (diagnostic : Diagnostic) : Except Fault (Option Label) :=
  match diagnostic.span with
  | none => .ok none
  | some span => do
    let (start, stop) ← span.bounds
    return some {
      offset := start.toNat
      length := stop.toNat - start.toNat
      text := "line " ++ decimalText diagnostic.line.toNat }

def ofDiagnostic (diagnostic : Diagnostic) (sourceName source : String) :
    Except Fault Report := do
  let label ← labelOf diagnostic
  return {
    message := diagnostic.text
    code := "LOX" ++ decimalText diagnostic.code.toNat
    severity := diagnostic.category
    label := label
    sourceName := sourceName
    source := source }

/-- The report in a few plain lines: the message behind its code, and the
place it is about. -/
def lines (report : Report) : List String :=
  let place := report.label.map fun label =>
    "  in " ++ report.sourceName ++ ", " ++ label.text ++ ", byte " ++ decimalText label.offset
  (report.severity.name ++ " " ++ report.code ++ ": " ++ report.message) ::
    [place.getD ("  in " ++ report.sourceName)]

end Report

end LoxLexer
