import LoxLexer.Scan

/-!
# A cursor over the bytes of a source

A scan can also be made by a cursor that moves over the bytes of the source in
UTF-8 and looks at most one byte ahead.  It never decodes the text on its way.
Each piece of text that it cuts out has to begin and end between two characters,
each sum on words has to fit, and each turn of a loop has to bring the cursor
closer to the end; where one of these fails, the scan ends with a mishap.

Three moves skip text whose end is searched for instead of looked at byte by byte:
the inside of a string, a line comment, and the rest of a stray character.  They
are given apart (`Moves`), and `Moves.bulk` are those that search.
-/

namespace LoxLexer

/-- What can go wrong while a cursor moves. -/
inductive Mishap where
  | fault (fault : Fault)
  /-- Bytes were asked for that are not all there. -/
  | outOfBounds
  /-- A text was asked for that does not begin and end between characters. -/
  | insideCharacter
  /-- More was taken from a number than it holds. -/
  | subtractionUnderflow
  /-- A loop took a turn without coming closer to the end. -/
  | stuck
deriving DecidableEq, Repr

/-- The state of a scan: where the token begins that is being read, the next byte
and its line, and what has been found. -/
structure Cursor where
  start : Nat
  current : Nat
  line : UInt32
  tokens : List Token
  diagnostics : List Diagnostic

/-- Repeats a move while a test holds. -/
def loop {σ : Type} (size : Nat) (position : σ → Nat) (test : σ → Bool)
    (move : σ → Except Mishap σ) (state : σ) : Except Mishap σ :=
  if test state then
    match move state with
    | .error mishap => .error mishap
    | .ok next =>
      if position state < position next ∧ position next ≤ size then
        loop size position test move next
      else
        .error .stuck
  else
    .ok state
termination_by size - position state

def Mishap.lift {α : Type} : Except Fault α → Except Mishap α
  | .ok value => .ok value
  | .error reason => .error (.fault reason)

/-- The offset in front of another one. -/
def previous (offset : Nat) : Except Mishap Nat :=
  if offset = 0 then .error .subtractionUnderflow else .ok (offset - 1)

def bytesOf (source : String) : List UInt8 :=
  source.toUTF8.data.toList

def bytesBetween (source : String) (start stop : Nat) : Except Mishap (List UInt8) :=
  if start ≤ stop ∧ stop ≤ source.utf8ByteSize then
    .ok (((bytesOf source).drop start).take (stop - start))
  else
    .error .outOfBounds

def textBetween (source : String) (start stop : Nat) : Except Mishap String :=
  if h : String.Pos.Raw.IsValid source ⟨start⟩ ∧ String.Pos.Raw.IsValid source ⟨stop⟩ ∧
      start ≤ stop then
    .ok (String.extract (source.pos ⟨start⟩ h.1) (source.pos ⟨stop⟩ h.2.1))
  else
    .error .insideCharacter

/-- The byte at an offset, read as a character.  Behind the end it is zero. -/
def charAt (source : String) (offset : Nat) : Char :=
  ((bytesOf source)[offset]?.map Char.ofUInt8).getD '\x00'

namespace Cursor

variable (source : String) (cursor : Cursor)

def atEnd : Bool :=
  source.utf8ByteSize ≤ cursor.current

def peek : Char :=
  charAt source cursor.current

def peekNext : Char :=
  charAt source (cursor.current + 1)

/-- Takes one byte, and counts it if it is a line feed. -/
def advance : Except Mishap Cursor := do
  let line ← if cursor.peek source = '\n' then Mishap.lift (Word.add cursor.line 1)
    else pure cursor.line
  return { cursor with current := cursor.current + 1, line := line }

/-- Takes all bytes up to an offset, and counts the line feeds among them. -/
def advanceTo (stop : Nat) : Except Mishap Cursor := do
  let bytes ← bytesBetween source cursor.current stop
  let line ← Mishap.lift (Word.add cursor.line (UInt32.ofNat (bytes.count 10)))
  return { cursor with current := stop, line := line }

/-- The offset of the next byte of some value. -/
def find? (byte : UInt8) : Except Mishap (Option Nat) := do
  let bytes ← bytesBetween source cursor.current source.utf8ByteSize
  return (bytes.findIdx? (· == byte)).map fun index => cursor.current + index

/-- Takes the next byte only if it is the expected one. -/
def matchChar (expected : Char) : Except Mishap (Bool × Cursor) :=
  if cursor.atEnd source ∨ cursor.peek source ≠ expected then
    .ok (false, cursor)
  else do
    return (true, ← cursor.advance source)

def skipWhile (test : Char → Bool) : Except Mishap Cursor :=
  loop source.utf8ByteSize current (fun cursor => test (cursor.peek source)) (advance source)
    cursor

def pushToken (kind : Kind) (literal : Option Literal) (line : UInt32) :
    Except Mishap Cursor := do
  let lexeme ← textBetween source cursor.start cursor.current
  let span ← Mishap.lift (Span.ofOffsets cursor.start cursor.current)
  return { cursor with tokens := cursor.tokens ++ [⟨kind, lexeme, literal, line, span⟩] }

def report (message : Message) (arguments : List String) : Except Mishap Cursor := do
  let span ← Mishap.lift (Span.ofOffsets cursor.start cursor.current)
  let diagnostic := Diagnostic.ofMessage cursor.line message arguments (some span)
  return { cursor with diagnostics := cursor.diagnostics ++ [diagnostic] }

end Cursor

/-- The moves over text whose end is searched for. -/
structure Moves where
  /-- To the next quote, or to the end, and whether there is a quote. -/
  toQuote : String → Cursor → Except Mishap (Bool × Cursor)
  /-- To the next line feed, or to the end. -/
  toLineFeed : String → Cursor → Except Mishap Cursor
  /-- Past a stray character, of which one byte has been taken. -/
  pastCharacter : String → Char → Cursor → Except Mishap Cursor

/-- The moves that jump.  They count line feeds only inside a string; line
comments and stray characters have none. -/
def Moves.bulk : Moves where
  toQuote source cursor := do
    match ← cursor.find? source 34 with
    | some offset => return (true, ← cursor.advanceTo source offset)
    | none => return (false, ← cursor.advanceTo source source.utf8ByteSize)
  toLineFeed source cursor := do
    let offset ← cursor.find? source 10
    return { cursor with current := offset.getD source.utf8ByteSize }
  pastCharacter _ c cursor := .ok { cursor with current := cursor.start + max c.utf8Size 1 }

namespace Cursor

variable (moves : Moves) (source : String) (cursor : Cursor)

def scanOperator (forms : Kind.OperatorForms) : Except Mishap Cursor := do
  let (withEquals, cursor) ← cursor.matchChar source '='
  cursor.pushToken source (if withEquals then forms.withEquals else forms.bare) none cursor.line

def pushNumber : Except Mishap Cursor := do
  let text ← textBetween source cursor.start cursor.current
  let value := (Binary64.parse? text).getD .nan
  cursor.pushToken source .number (some (.number value)) cursor.line

/-- A point without a digit after it belongs to the next token. -/
def scanNumber : Except Mishap Cursor := do
  let cursor ← cursor.skipWhile source isDigit
  if cursor.peek source = '.' ∧ isDigit (cursor.peekNext source) then
    let cursor ← cursor.advance source
    let cursor ← cursor.skipWhile source isDigit
    cursor.pushNumber source
  else
    cursor.pushNumber source

def scanWord : Except Mishap Cursor := do
  let cursor ← cursor.skipWhile source isWordCharacter
  let text ← textBetween source cursor.start cursor.current
  cursor.pushToken source (Kind.ofWord text) none cursor.line

/-- A string belongs to the line of its opening quote. -/
def scanString : Except Mishap Cursor := do
  let startLine := cursor.line
  let (closed, cursor) ← moves.toQuote source cursor
  if closed then
    let cursor ← cursor.advance source
    let value ← textBetween source (cursor.start + 1) (← previous cursor.current)
    cursor.pushToken source .string (some (.text value)) startLine
  else
    cursor.report .unterminatedString []

/-- One turn inside a block comment, with the number of comments that are open. -/
def commentTurn : UInt32 × Cursor → Except Mishap (UInt32 × Cursor)
  | (depth, cursor) => do
    if cursor.peek source = '*' ∧ cursor.peekNext source = '/' then
      let cursor ← cursor.advance source
      let cursor ← cursor.advance source
      let depth ← if depth = 0 then .error .subtractionUnderflow else pure (depth - 1)
      return (depth, cursor)
    else if cursor.peek source = '/' ∧ cursor.peekNext source = '*' then
      let cursor ← cursor.advance source
      let cursor ← cursor.advance source
      let depth ← Mishap.lift (Word.add depth 1)
      return (depth, cursor)
    else
      return (depth, ← cursor.advance source)

/-- A block comment goes on while a comment is open and text is left. -/
def commentGoesOn : UInt32 × Cursor → Bool
  | (depth, cursor) => decide (0 < depth) && !cursor.atEnd source

def commentLoop : UInt32 × Cursor → Except Mishap (UInt32 × Cursor) :=
  loop source.utf8ByteSize (fun state => state.2.current) (commentGoesOn source)
    (commentTurn source)

def skipComment : Except Mishap Cursor := do
  let (_, cursor) ← commentLoop source (1, cursor)
  return cursor

def scanSlash : Except Mishap Cursor := do
  let (line, cursor) ← cursor.matchChar source '/'
  if line then
    moves.toLineFeed source cursor
  else
    let (block, cursor) ← cursor.matchChar source '*'
    if block then
      cursor.skipComment source
    else
      cursor.pushToken source .slash none cursor.line

def scanStray : Except Mishap Cursor := do
  let rest ← textBetween source cursor.start source.utf8ByteSize
  let c := rest.toList.head?.getD '\x00'
  let cursor ← moves.pastCharacter source c cursor
  cursor.report .unexpectedCharacter [String.singleton c]

/-- Reads at most one token, from the start of the cursor on. -/
def scanToken : Except Mishap Cursor := do
  let c := cursor.peek source
  let cursor ← cursor.advance source
  match Kind.ofPunctuation? c, Kind.operatorForms? c with
  | some kind, _ => cursor.pushToken source kind none cursor.line
  | none, some forms => cursor.scanOperator source forms
  | none, none =>
    if isDigit c then cursor.scanNumber source
    else if isLetter c then cursor.scanWord source
    else if c = '"' then cursor.scanString moves source
    else if c = '/' then cursor.scanSlash moves source
    else if isBlank c then return cursor
    else cursor.scanStray moves source

def turn : Except Mishap Cursor :=
  { cursor with start := cursor.current }.scanToken moves source

def initial : Cursor where
  start := 0
  current := 0
  line := 1
  tokens := []
  diagnostics := []

/-- The cursors that a scan comes to between its turns. -/
inductive Reached : Cursor → Prop where
  | initial : Reached initial
  | turn {cursor next : Cursor} (hreached : Reached cursor) (hend : ¬ cursor.atEnd source)
      (hturn : cursor.turn moves source = .ok next) : Reached next

def scan : Except Mishap Scan := do
  let cursor ← loop source.utf8ByteSize current (fun cursor => !cursor.atEnd source)
    (turn moves source) initial
  let last := Token.endOfText cursor.line (Span.clamp source.utf8ByteSize)
  return ⟨cursor.tokens ++ [last], cursor.diagnostics⟩

end Cursor

end LoxLexer
