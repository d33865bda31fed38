import LoxLexer.Options.Numeral

/-!
# Words and strings in a configuration

The words and strings of JSON, each read after its first character, and the
refusal of a value that has no place where it stands.
-/

namespace LoxLexer

/-- The blanks between the tokens of a configuration. -/
def isSpacing (c : Char) : Bool :=
  c == ' ' || c == '\n' || c == '\t' || c == '\r'

def skipSpacing (text : List Char) : List Char :=
  text.dropWhile isSpacing

/-- Reads the given characters, and returns the text after them. -/
def readWord : List Char → List Char → Except Stop (List Char)
  | [], text => .ok text
  | _ :: _, [] => .error ⟨.endOfValue, [], 0⟩
  | c :: word, d :: text =>
    if d = c then readWord word text else .error ⟨.expectedWord, d :: text, 1⟩

/-- The value of a hexadecimal digit in either case. -/
def hexValue? (c : Char) : Option Nat :=
  if isDigit c then some (digitValue c)
  else if 'a' ≤ c ∧ c ≤ 'f' then some (c.toNat - 'a'.toNat + 10)
  else if 'A' ≤ c ∧ c ≤ 'F' then some (c.toNat - 'A'.toNat + 10)
  else none

/-- The number that hexadecimal digits stand for. -/
def hexNumber? (digits : List Char) : Option Nat :=
  digits.foldl (fun value c => do return 16 * (← value) + (← hexValue? c)) (some 0)

/-- Reads four hexadecimal digits.  If four bytes are left, but are not such
digits, the problem lies behind them. -/
def readHex (text : List Char) : Except Stop (Nat × List Char) :=
  if byteLength (text.take 4) < 4 then
    .error ⟨.endOfString, [], 0⟩
  else
    match text with
    | a :: b :: c :: d :: rest =>
      match hexNumber? [a, b, c, d] with
      | some number => .ok (number, rest)
      | none => .error ⟨.invalidEscape, text, 4⟩
    | _ => .error ⟨.invalidEscape, text, 4⟩

/-- The code units that only count in front of another one. -/
def isLeading (unit : Nat) : Bool :=
  0xd800 ≤ unit && unit ≤ 0xdbff

/-- The code units that only count behind a leading one. -/
def isTrailing (unit : Nat) : Bool :=
  0xdc00 ≤ unit && unit ≤ 0xdfff

/-- Reads the escape of a trailing code unit, which has to follow a leading one. -/
def readTrailing (leading : Nat) : List Char → Except Stop (Char × List Char)
  | [] | ['\\'] => .error ⟨.endOfString, [], 0⟩
  | '\\' :: c :: text =>
    if c = 'u' then
      match readHex text with
      | .ok (unit, rest) =>
        if isTrailing unit then
          .ok (Char.ofNat (0x10000 + (leading - 0xd800) * 0x400 + (unit - 0xdc00)), rest)
        else
          .error ⟨.loneSurrogate, rest, 0⟩
      | .error stop => .error stop
    else
      .error ⟨.missingSurrogate, c :: text, 1⟩
  | c :: text => .error ⟨.missingSurrogate, c :: text, 1⟩

/-- Reads the character of an escape after its letter `u`. -/
def readCodeUnits (text : List Char) : Except Stop (Char × List Char) :=
  match readHex text with
  | .ok (unit, rest) =>
    if isTrailing unit then .error ⟨.loneSurrogate, rest, 0⟩
    else if isLeading unit then readTrailing unit rest
    else .ok (Char.ofNat unit, rest)
  | .error stop => .error stop

/-- The characters with an escape of one letter. -/
def escapedCharacter? : Char → Option Char
  | '"' => some '"'
  | '\\' => some '\\'
  | '/' => some '/'
  | 'b' => some '\x08'
  | 'f' => some '\x0c'
  | 'n' => some '\n'
  | 'r' => some '\r'
  | 't' => some '\t'
  | _ => none

/-- Reads an escape after its backslash. -/
def readEscape : List Char → Except Stop (Char × List Char)
  | [] => .error ⟨.endOfString, [], 0⟩
  | c :: text =>
    if c = 'u' then
      readCodeUnits text
    else
      match escapedCharacter? c with
      | some escaped => .ok (escaped, text)
      | none => .error ⟨.invalidEscape, c :: text, 1⟩

theorem readHex_length_lt {text rest : List Char} {number : Nat}
    (h : readHex text = .ok (number, rest)) : rest.length < text.length := by
  unfold readHex at h
  repeat' split at h
  all_goals try contradiction
  simp only [Except.ok.injEq, Prod.mk.injEq] at h
  simp only [← h.2, List.length_cons]
  omega

theorem readTrailing_length_lt {leading : Nat} {text rest : List Char} {c : Char}
    (h : readTrailing leading text = .ok (c, rest)) : rest.length < text.length := by
  fun_cases readTrailing leading text with
  | case3 text unit rest' hhex htrailing =>
    have hlt := readHex_length_lt hhex
    simp_all [readTrailing]
    omega
  | _ => simp_all [readTrailing]

theorem readCodeUnits_length_lt {text rest : List Char} {c : Char}
    (h : readCodeUnits text = .ok (c, rest)) : rest.length < text.length := by
  unfold readCodeUnits at h
  split at h
  · rename_i unit first hhex
    have hlt := readHex_length_lt hhex
    split at h
    · contradiction
    · split at h
      · have := readTrailing_length_lt h
        omega
      · simp_all
  · contradiction

theorem readEscape_length_lt {text rest : List Char} {c : Char}
    (h : readEscape text = .ok (c, rest)) : rest.length < text.length := by
  unfold readEscape at h
  split at h
  · contradiction
  · split at h
    · have := readCodeUnits_length_lt h
      simp only [List.length_cons]
      omega
    · split at h
      · simp_all
      · contradiction

/-- Reads a string after its opening quote, behind the characters in `seen`,
which come last one first. -/
def readString (seen : List Char) (text : List Char) : Except Stop (String × List Char) :=
  match text with
  | [] => .error ⟨.endOfString, [], 0⟩
  | '"' :: text => .ok (String.ofList seen.reverse, text)
  | '\\' :: text =>
    match _hescape : readEscape text with
    | .ok (c, rest) => readString (c :: seen) rest
    | .error stop => .error stop
  | c :: text =>
    if c.toNat < 0x20 then .error ⟨.controlCharacter, c :: text, 1⟩
    else readString (c :: seen) text
termination_by text.length
decreasing_by
  · have := readEscape_length_lt _hescape
    simp only [List.length_cons]
    omega
  · simp

/-- The stop at a value that has no place where it stands.  A scalar is read
in full first, so a problem of its own comes before its type. -/
def refuse (expected : Expectation) (text : List Char) : Stop :=
  match text with
  | [] => ⟨.endOfValue, [], 0⟩
  | '[' :: _ => ⟨.wrongType .sequence expected, text, 0⟩
  | '{' :: _ => ⟨.wrongType .map expected, text, 0⟩
  | '"' :: rest => scalar (readString [] rest) .string
  | 'n' :: rest => word .null (readWord ['u', 'l', 'l'] rest)
  | 't' :: rest => word (.boolean true) (readWord ['r', 'u', 'e'] rest)
  | 'f' :: rest => word (.boolean false) (readWord ['a', 'l', 's', 'e'] rest)
  | '-' :: rest => scalar (Numeral.read true rest) numeral
  | c :: _ =>
    if isDigit c then scalar (Numeral.read false text) numeral
    else ⟨.expectedValue, text, 1⟩
where
  scalar {α : Type} (reading : Except Stop (α × List Char)) (offender : α → Offender) : Stop :=
    match reading with
    | .ok (value, rest) => ⟨.wrongType (offender value) expected, rest, 0⟩
    | .error stop => stop
  word (offender : Offender) : Except Stop (List Char) → Stop
    | .ok rest => ⟨.wrongType offender expected, rest, 0⟩
    | .error stop => stop
  numeral : Numeral → Offender
    | .integer value => .integer value
    | .real value => .real value

end LoxLexer
