/-!
# Text on a terminal

Control characters steer a terminal.  Most do so alone; the escape character
opens a command of several characters, up to whole strings for a device or for
the system.  A message that repeats a text from outside holds only what a
terminal shows of that text, so it cannot be steered by it.

A blank inside a command is shown, and so is all that follows it up to the next
control character, where the command goes on.
-/

namespace LoxLexer

/-- Whether a character is a blank that a terminal acts on by moving. -/
def isLayout (c : Char) : Bool :=
  c = '\t' || c = '\n' || c = '\x0c' || c = '\r'

/-- Whether a character has a place in shown text. -/
def isShowable (c : Char) : Bool :=
  isLayout c || (' ' ≤ c && c ≠ '\x7f')

/-- What a terminal takes the next character for. -/
inductive TerminalMode where
  | text
  | escape
  | escapeMarks
  | sequence
  | deviceHead
  | deviceParameters
  | deviceMarks
  | deviceString
  | systemString
deriving DecidableEq, Repr

namespace TerminalMode

/-- A mark comes before the character that completes a command. -/
def isMark (c : Char) : Bool := ' ' ≤ c && c ≤ '/'

def isParameter (c : Char) : Bool := '0' ≤ c && c ≤ '?'

/-- Whether a character completes a control sequence or a head. -/
def isFinal (c : Char) : Bool := '@' ≤ c && c ≤ '~'

/-- Whether a character ends a string for a device: its UTF-8 form holds the
byte 9C, which is the terminator of strings where characters are bytes. -/
def endsDeviceString (c : Char) : Bool :=
  (String.utf8EncodeChar c).contains 0x9c

/-- What a character that stands behind an escape character opens. -/
def opened (c : Char) : TerminalMode :=
  if isMark c then .escapeMarks
  else if c = '[' then .sequence
  else if c = ']' then .systemString
  else if c = 'P' then .deviceHead
  else if c = 'X' || c = '^' || c = '_' then .deviceString
  else if isParameter c || isFinal c then .text
  else .escape

/-- The mode behind a character.  An escape character begins a new command in
each mode, and two controls cancel what has begun. -/
def next (mode : TerminalMode) (c : Char) : TerminalMode :=
  if c = '\x1b' then .escape
  else if c = '\x18' || c = '\x1a' then .text
  else
    match mode with
    | .text => .text
    | .escape => opened c
    | .escapeMarks => if isParameter c || isFinal c then .text else .escapeMarks
    | .sequence => if isFinal c then .text else .sequence
    | .deviceHead =>
      if isMark c then .deviceMarks
      else if isParameter c then .deviceParameters
      else if isFinal c then .deviceString
      else .deviceHead
    | .deviceParameters =>
      if isMark c then .deviceMarks
      else if ('<' ≤ c && c ≤ '?') || isFinal c then .deviceString
      else .deviceParameters
    | .deviceMarks => if isParameter c || isFinal c then .deviceString else .deviceMarks
    | .deviceString => if endsDeviceString c then .text else .deviceString
    | .systemString => if c = '\x07' then .text else .systemString

/-- Whether a character is shown that does not follow a shown one. -/
def shows (mode : TerminalMode) (c : Char) : Bool :=
  match mode with
  | .text => isShowable c
  | .escape | .escapeMarks | .sequence => isLayout c
  | _ => false

theorem isShowable_of_shows {mode : TerminalMode} {c : Char} (h : mode.shows c) :
    isShowable c := by
  cases mode <;> simp_all [shows, isShowable]

end TerminalMode

structure Terminal where
  mode : TerminalMode
  /-- Whether the character before was shown. -/
  showing : Bool
deriving DecidableEq, Repr

namespace Terminal

def start : Terminal := ⟨.text, false⟩

def shows (terminal : Terminal) (c : Char) : Bool :=
  if terminal.showing then isShowable c else terminal.mode.shows c

/-- The terminal behind a character.  In a run of shown characters the mode
stays, but a character beyond ASCII ends the command around the run. -/
def next (terminal : Terminal) (c : Char) : Terminal :=
  if terminal.showing && isShowable c then ⟨if c ≤ '\x7f' then terminal.mode else .text, true⟩
  else ⟨terminal.mode.next c, terminal.shows c⟩

def shown (terminal : Terminal) : List Char → List Char
  | [] => []
  | c :: text =>
    if terminal.shows c then c :: (terminal.next c).shown text
    else (terminal.next c).shown text

theorem isShowable_of_shows {terminal : Terminal} {c : Char} (h : terminal.shows c) :
    isShowable c := by
  unfold shows at h
  split at h
  · exact h
  · exact TerminalMode.isShowable_of_shows h

/-- Nothing that is shown steers a terminal. -/
theorem isShowable_of_mem_shown {terminal : Terminal} {text : List Char} {c : Char}
    (h : c ∈ terminal.shown text) : isShowable c := by
  induction text generalizing terminal with
  | nil => simp [shown] at h
  | cons d text ih =>
    unfold shown at h
    split at h
    · rename_i hd
      rcases List.mem_cons.mp h with rfl | h
      · exact isShowable_of_shows hd
      · exact ih h
    · exact ih h

/-- A text without control characters is shown as it stands. -/
theorem shown_eq_self {terminal : Terminal} {text : List Char} (hmode : terminal.mode = .text)
    (h : ∀ c ∈ text, isShowable c) : terminal.shown text = text := by
  induction text generalizing terminal with
  | nil => rfl
  | cons c text ih =>
    have hc : isShowable c := h c List.mem_cons_self
    have hshows : terminal.shows c := by simp [shows, hmode, TerminalMode.shows, hc]
    have hnext : (terminal.next c).mode = .text := by
      have hkeeps : TerminalMode.next .text c = .text := by
        by_cases hescape : c = '\x1b'
        · subst hescape
          simp [isShowable, isLayout] at hc
        · simp [TerminalMode.next, hescape]
      unfold next
      split
      · simp [hmode]
      · simp [hmode, hkeeps]
    rw [shown, if_pos hshows, ih hnext fun d hd => h d (List.mem_cons_of_mem c hd)]

/-- What a terminal shows of a text that it reads from the start. -/
def plainText (text : String) : String :=
  String.ofList (start.shown text.toList)

end Terminal

end LoxLexer
