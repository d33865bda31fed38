import LoxLexer.Command.Showing

/-!
# The prompt

Without a script the lines of the input are scanned one by one.  No line knows
of any other: each is a source of its own, and errors in it do not end the
prompt.
-/

namespace LoxLexer.Prompt

/-- What is printed before each line is read. -/
def mark : String := "λ "

def sourceName : String := "<prompt>"

/-- The lines of an input, each up to and with its newline, behind the bytes
of a line already begun, which come last one first. -/
def linesAfter (begun : List UInt8) : List UInt8 → List (List UInt8)
  | [] => if begun.isEmpty then [] else [begun.reverse]
  | byte :: bytes =>
    if byte = 10 then (byte :: begun).reverse :: linesAfter [] bytes
    else linesAfter (byte :: begun) bytes

/-- The lines of an input.  The last one may lack its newline, but is not empty. -/
def lines (input : ByteArray) : List (List UInt8) :=
  linesAfter [] input.data.toList

/-- A line without the carriage returns and newlines at its end. -/
def strip (line : String) : String :=
  String.ofList (line.toList.reverse.dropWhile fun c => c == '\n' || c == '\r').reverse

/-- Scans one line, independently of all others. -/
def answer (options : Options) (terminal : Bool) (line : String) : Except Fault Shown :=
  showSource options terminal sourceName (strip line) .empty

/-- What comes of the bytes of a line, if they are text. -/
def answerBytes (options : Options) (terminal : Bool) (line : List UInt8) :
    Except Fault (Option Shown) :=
  match String.fromUTF8? ⟨line.toArray⟩ with
  | some line => some <$> answer options terminal line
  | none => .ok none

/-- Answers lines until one is no text or none is left. -/
def answerAll (options : Options) (terminal : Bool) : List (List UInt8) → Except Fault Outcome
  | [] => .ok ⟨.success, mark ++ "\n", []⟩
  | line :: lines => do
    match ← answerBytes options terminal line with
    | none => return ⟨.transferFailed, mark, [.error terminal ReadFailure.notText.message]⟩
    | some shown =>
      let others ← answerAll options terminal lines
      return ⟨others.status, mark ++ shown.output ++ others.output,
        shown.notices ++ others.notices⟩

def run (world : World) (options : Options) : Except Fault Outcome :=
  if world.outputFull then
    .ok ⟨.transferFailed, "", [.error world.terminal outputFullMessage]⟩
  else
    answerAll options world.terminal (lines world.input)

end LoxLexer.Prompt
