import LoxLexer.Diagnostic.Collection
import LoxLexer.Scan

/-!
# Sessions

A session is a row of steps on one collection of diagnostics.  A scan reports
into the collection behind what it holds already; it never looks at it.
-/

namespace LoxLexer

inductive Step where
  | scan (source : String)
  | add (diagnostic : Diagnostic)
  | clear
deriving DecidableEq, Repr

/-- What one step answers: the tokens of a scan, the diagnostics that it
contributed, and the collection after it. -/
structure StepResult where
  tokens : Option (List Token)
  added : List Diagnostic
  held : Collection

namespace Step

def run (held : Collection) : Step → Except Fault StepResult
  | .scan source => do
    let found ← LoxLexer.scan source
    return ⟨some found.tokens, found.diagnostics, held.addAll found.diagnostics⟩
  | .add diagnostic => .ok ⟨none, [diagnostic], held.add diagnostic⟩
  | .clear => .ok ⟨none, [], .empty⟩

/-- Takes steps one after another, each on the collection that the one before
it left. -/
def runAll (held : Collection) : List Step → Except Fault (List StepResult)
  | [] => .ok []
  | step :: steps => do
    let result ← step.run held
    let results ← runAll result.held steps
    return result :: results

end Step

end LoxLexer
