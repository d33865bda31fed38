import LoxLexer.Command.Showing
import LoxLexer.Options.File

/-!
# Scripts

A script is a file that is scanned as a whole.  A script without any character
is no error, but is warned about.
-/

namespace LoxLexer.Script

/-- The warning about a source without any character. -/
def emptyWarning (name source : String) : Collection :=
  if source.isEmpty then
    Collection.empty.add (.ofMessage 1 .emptySourceFile [name] none)
  else
    .empty

def run (world : World) (options : Options) (name : String) : Except Fault Outcome :=
  match world.files.readText name with
  | .error failure =>
    .ok ⟨.noInput, "", [.error world.terminal (unreadableMessage name failure)]⟩
  | .ok source => do
    let shown ← showSource options world.terminal name source (emptyWarning name source)
    if world.outputFull then
      let message := options.format.failureMessage outputFullMessage
      return ⟨.transferFailed, "", [.error world.terminal message]⟩
    else
      return ⟨if shown.hasErrors then .errorsFound else .success, shown.output, shown.notices⟩

end LoxLexer.Script
