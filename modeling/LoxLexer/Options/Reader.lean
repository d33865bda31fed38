import LoxLexer.Options.Basic
import LoxLexer.Options.Scalar

/-!
# Reading a configuration

A configuration is a JSON object with some of the options as members, or a JSON
array with the values of all of them.  Reading goes from left to right and
stops at the first problem.  A problem with a member or with the length of an
array is placed where the closing bracket would have been looked for.
-/

namespace LoxLexer

namespace OutputFormat

/-- Reads the name of a format after its opening quote. -/
def readName (text : List Char) : Except Stop (OutputFormat × List Char) :=
  match readString [] text with
  | .ok (name, rest) =>
    match ofName? name with
    | some format => .ok (format, rest)
    | none => .error ⟨.unknownFormat name, rest, 0⟩
  | .error stop => .error stop

end OutputFormat

def readColon (text : List Char) : Except Stop (List Char) :=
  match skipSpacing text with
  | [] => .error ⟨.endOfObject, [], 0⟩
  | ':' :: rest => .ok rest
  | rest => .error ⟨.expectedColon, rest, 1⟩

def readNull (text : List Char) : Except Stop (List Char) :=
  match skipSpacing text with
  | [] => .error ⟨.endOfValue, [], 0⟩
  | 'n' :: rest => readWord ['u', 'l', 'l'] rest
  | rest => .error (refuse .unit rest)

/-- Reads the bracket that closes the object form of a format. -/
def closeFormat (text : List Char) : Except Stop (List Char) :=
  match skipSpacing text with
  | [] => .error ⟨.endOfObject, [], 0⟩
  | '}' :: rest => .ok rest
  | rest => .error ⟨.expectedValue, rest, 0⟩

/-- Reads the object form of a format after its opening bracket: the name of
the format, with the value `null`. -/
def readFormatObject (text : List Char) : Except Stop (OutputFormat × List Char) :=
  match skipSpacing text with
  | [] => .error ⟨.endOfObject, [], 0⟩
  | '}' :: rest => .error ⟨.expectedValue, '}' :: rest, 1⟩
  | '"' :: rest => do
    let (format, rest) ← OutputFormat.readName rest
    let rest ← readColon rest
    let rest ← readNull rest
    let rest ← closeFormat rest
    return (format, rest)
  | rest => .error ⟨.keyNotString, rest, 1⟩

def readOutput (text : List Char) : Except Stop (Option OutputFormat × List Char) :=
  match skipSpacing text with
  | [] => .error ⟨.endOfValue, [], 0⟩
  | 'n' :: rest => do
    let rest ← readWord ['u', 'l', 'l'] rest
    return (none, rest)
  | '"' :: rest => do
    let (format, rest) ← OutputFormat.readName rest
    return (some format, rest)
  | '{' :: rest => do
    let (format, rest) ← readFormatObject rest
    return (some format, rest)
  | rest => .error ⟨.expectedValue, rest, 1⟩

def readPretty (text : List Char) : Except Stop (Option Bool × List Char) :=
  match skipSpacing text with
  | [] => .error ⟨.endOfValue, [], 0⟩
  | 'n' :: rest => do
    let rest ← readWord ['u', 'l', 'l'] rest
    return (none, rest)
  | 't' :: rest => do
    let rest ← readWord ['r', 'u', 'e'] rest
    return (some true, rest)
  | 'f' :: rest => do
    let rest ← readWord ['a', 'l', 's', 'e'] rest
    return (some false, rest)
  | rest => .error (refuse .boolean rest)

/-- The members read so far.  A member may be present and still leave its
option unset. -/
structure Members where
  output : Option (Option OutputFormat)
  pretty : Option (Option Bool)
deriving DecidableEq, Repr

namespace Members

def none : Members :=
  ⟨.none, .none⟩

def options (members : Members) : Options :=
  ⟨members.output.join, members.pretty.join⟩

/-- The number of members that may still come. -/
def missing (members : Members) : Nat :=
  (if members.output.isNone then 1 else 0) + (if members.pretty.isNone then 1 else 0)

/-- The stop at the name of a member that has no place, once the bracket that
would close the object has been looked for. -/
def misplaced (problem : Problem) (text : List Char) : Stop :=
  match skipSpacing text with
  | '}' :: rest => ⟨problem, rest, 0⟩
  | rest => ⟨problem, rest, 0⟩

/-- Whether there was a member for an option. -/
def has (members : Members) : OptionName → Bool
  | .output => members.output.isSome
  | .pretty => members.pretty.isSome

def readValue (members : Members) (option : OptionName) (text : List Char) :
    Except Stop (Members × List Char) :=
  match option with
  | .output =>
    match readOutput text with
    | .ok (value, rest) => .ok ({ members with output := some value }, rest)
    | .error stop => .error stop
  | .pretty =>
    match readPretty text with
    | .ok (value, rest) => .ok ({ members with pretty := some value }, rest)
    | .error stop => .error stop

/-- Reads a member after the opening quote of its name. -/
def readOne (members : Members) (text : List Char) : Except Stop (Members × List Char) :=
  match readString [] text with
  | .error stop => .error stop
  | .ok (name, rest) =>
    match OptionName.ofName? name with
    | .none => .error (misplaced (.unknownField name) rest)
    | some option =>
      if members.has option then
        .error (misplaced (.repeatedField option) rest)
      else
        match readColon rest with
        | .ok rest => members.readValue option rest
        | .error stop => .error stop

theorem readValue_missing_lt {members members' : Members} {option : OptionName}
    {text rest : List Char} (hnew : ¬ members.has option)
    (h : members.readValue option text = .ok (members', rest)) :
    members'.missing < members.missing := by
  unfold readValue at h
  repeat' split at h
  all_goals try contradiction
  all_goals
    simp only [Except.ok.injEq, Prod.mk.injEq] at h
    simp_all [has, missing, ← h.1]

theorem readOne_missing_lt {members members' : Members} {text rest : List Char}
    (h : members.readOne text = .ok (members', rest)) : members'.missing < members.missing := by
  unfold readOne at h
  repeat' split at h
  all_goals try contradiction
  exact readValue_missing_lt ‹_› h

/-- Reads members from the opening quote of a name to the closing bracket. -/
def read (members : Members) (text : List Char) : Except Stop (Members × List Char) :=
  match _hone : members.readOne text with
  | .error stop => .error stop
  | .ok (members', rest) =>
    match skipSpacing rest with
    | [] => .error ⟨.endOfObject, [], 0⟩
    | '}' :: rest => .ok (members', rest)
    | ',' :: rest =>
      match skipSpacing rest with
      | [] => .error ⟨.endOfValue, [], 0⟩
      | '"' :: rest => read members' rest
      | '}' :: rest => .error ⟨.trailingComma, '}' :: rest, 1⟩
      | rest => .error ⟨.keyNotString, rest, 1⟩
    | rest => .error ⟨.expectedCommaOrBrace, rest, 1⟩
termination_by members.missing
decreasing_by exact readOne_missing_lt _hone

end Members

/-- Reads an object after its opening bracket. -/
def readObject (text : List Char) : Except Stop (Options × List Char) :=
  match skipSpacing text with
  | [] => .error ⟨.endOfObject, [], 0⟩
  | '}' :: rest => .ok (.unset, rest)
  | '"' :: rest => do
    let (members, rest) ← Members.none.read rest
    return (members.options, rest)
  | rest => .error ⟨.keyNotString, rest, 1⟩

/-- Reads the bracket that closes an array. -/
def closeList (text : List Char) : Except Stop (List Char) :=
  match skipSpacing text with
  | [] => .error ⟨.endOfList, [], 0⟩
  | ']' :: rest => .ok rest
  | ',' :: rest =>
    match skipSpacing rest with
    | ']' :: rest => .error ⟨.trailingComma, ']' :: rest, 1⟩
    | rest => .error ⟨.trailingCharacters, rest, 1⟩
  | rest => .error ⟨.trailingCharacters, rest, 1⟩

/-- Reads the comma between the two values of an array, up to the second one. -/
def readComma (text : List Char) : Except Stop (List Char) :=
  match skipSpacing text with
  | [] => .error ⟨.endOfList, [], 0⟩
  | ']' :: rest => .error ⟨.wrongLength 1, rest, 0⟩
  | ',' :: rest =>
    match skipSpacing rest with
    | [] => .error ⟨.endOfValue, [], 0⟩
    | ']' :: rest => .error ⟨.trailingComma, ']' :: rest, 1⟩
    | rest => .ok rest
  | rest => .error ⟨.expectedCommaOrBracket, rest, 1⟩

/-- Reads an array after its opening bracket. -/
def readList (text : List Char) : Except Stop (Options × List Char) :=
  match skipSpacing text with
  | [] => .error ⟨.endOfList, [], 0⟩
  | ']' :: rest => .error ⟨.wrongLength 0, rest, 0⟩
  | rest => do
    let (output, rest) ← readOutput rest
    let rest ← readComma rest
    let (pretty, rest) ← readPretty rest
    let rest ← closeList rest
    return (⟨output, pretty⟩, rest)

/-- Reads a configuration off a text. -/
def readOptions (text : List Char) : Except Stop (Options × List Char) :=
  match skipSpacing text with
  | [] => .error ⟨.endOfValue, [], 0⟩
  | '{' :: rest => readObject rest
  | '[' :: rest => readList rest
  | rest => .error (refuse .options rest)

/-- Reads a configuration that nothing but blanks may follow. -/
def readWhole (text : List Char) : Except Stop Options := do
  let (options, rest) ← readOptions text
  match skipSpacing rest with
  | [] => return options
  | rest => .error ⟨.trailingCharacters, rest, 1⟩

/-- The options that a configuration sets. -/
def Options.parse (content : String) : Except Complaint Options :=
  match readWhole content.toList with
  | .ok options => .ok options
  | .error stop => .error (.ofStop content.toList stop)

end LoxLexer
