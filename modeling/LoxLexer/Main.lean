import LoxLexer.Command.Program

/-!
# The program on a real system

Looks up the files that a call asks for, answers it, and passes the outcome on
to the streams.  At the prompt a line is answered as soon as it has been read.
-/

namespace LoxLexer.Main

/-- What the system says about an error.  Some of its parts give the code with
a minus sign, which the word for it cannot hold. -/
def systemError? : IO.Error → Option (Nat × String)
  | .noFileOrDirectory _ code details | .inappropriateType _ code details
  | .permissionDenied _ code details | .resourceExhausted _ code details
  | .invalidArgument _ code details | .noSuchThing _ code details
  | .resourceVanished code details | .hardwareFault code details
  | .otherError code details =>
    some (if code < 2147483648 then code.toNat else (0 - code).toNat, details)
  | _ => none

def description (error : IO.Error) : String :=
  match systemError? error with
  | some (code, details) => details ++ " (os error " ++ decimalText code ++ ")"
  | none => error.toString

def readFailure (error : IO.Error) : ReadFailure :=
  match systemError? error with
  | some (2, _) => .missing
  | some (20, _) => .notDirectory
  | some (21, _) => .isDirectory
  | some (36, _) => .nameTooLong
  | _ => .other (description error)

def readFile (path : String) : IO (Except ReadFailure ByteArray) := do
  try
    return .ok (← IO.FS.readBinFile path)
  catch error =>
    return .error (readFailure error)

def isRegularFile (path : String) : IO Bool := do
  try
    return (← ((← IO.currentDir) / path).metadata).type == .file
  catch _ =>
    return false

/-- The files of the system, as far as one path leads to them. -/
def filesAt (path : String) : IO Files := do
  let content ← readFile path
  let isFile ← isRegularFile path
  return {
    read := fun asked => if asked = path then content else .error .missing
    isFile := fun asked => asked == path && isFile }

def isTerminal : IO Bool := do
  (← IO.getStderr).isTty

def showNotices (notices : List Notice) : IO Unit := do
  let stream ← IO.getStderr
  for notice in notices do
    match notice with
    | .line text => stream.putStr (text ++ "\n")
    | .drawing report => stream.putStr (String.join (report.lines.map fun line => line ++ "\n"))

/-- Prints a text, and returns the report of the system if that fails. -/
def print (text : String) : IO (Option String) := do
  let stream ← IO.getStdout
  try
    stream.putStr text
    stream.flush
    return none
  catch error =>
    return some (description error)

def fail (status : Status) (message : String) : IO UInt32 := do
  showNotices [.error (← isTerminal) message]
  return status.code

/-- Passes on a checked result, unless the source is too long to have one. -/
def checked {α : Type} (result : Except Fault α) (use : α → IO UInt32) : IO UInt32 :=
  match result with
  | .ok value => use value
  | .error fault => fail .transferFailed fault.message

/-- Passes on an outcome.  What cannot be printed is reported in the given words. -/
def deliver (outcome : Outcome) (failureMessage : String → String) : IO UInt32 := do
  match ← print outcome.output with
  | some reason => fail .transferFailed (failureMessage reason)
  | none =>
    showNotices outcome.notices
    return outcome.status.code

/-- Reads bytes up to and with the next newline, behind those in `begun`,
which come last one first. -/
partial def readLine (begun : List UInt8) : IO (List UInt8) := do
  let bytes ← (← IO.getStdin).read 1
  match bytes.data.toList with
  | [] => return begun.reverse
  | byte :: _ => if byte = 10 then return (byte :: begun).reverse else readLine (byte :: begun)

partial def converse (options : Options) (terminal : Bool) : IO UInt32 := do
  if let some reason ← print Prompt.mark then
    return ← fail .transferFailed reason
  match ← readLine [] with
  | [] => deliver ⟨.success, "\n", []⟩ id
  | line =>
    checked (Prompt.answerBytes options terminal line) fun
      | none => fail .transferFailed ReadFailure.notText.message
      | some shown => do
        if let some reason ← print shown.output then
          return ← fail .transferFailed (options.format.failureMessage reason)
        showNotices shown.notices
        converse options terminal

def perform (arguments : Arguments) : IO UInt32 := do
  let terminal ← isTerminal
  let configuration := arguments.config.getD (Files.join "." Options.fileName)
  match arguments.prepare (← filesAt configuration) terminal with
  | .error outcome => deliver outcome id
  | .ok options =>
    match arguments.scripts.head? with
    | none => converse options terminal
    | some name =>
      let world : World := ⟨← filesAt name, ⟨#[]⟩, terminal, false⟩
      checked (Script.run world options name) fun outcome =>
        deliver outcome options.format.failureMessage

/-- Passes on what ends a call early, whether or not it can be printed. -/
def halt (outcome : Outcome) : IO UInt32 := do
  let _ ← print outcome.output
  showNotices outcome.notices
  return outcome.status.code

end LoxLexer.Main

open LoxLexer in
def main (arguments : List String) : IO UInt32 := do
  match Arguments.read arguments with
  | .ok arguments => Main.perform arguments
  | .error halt => Main.halt (Command.haltOutcome false halt)
