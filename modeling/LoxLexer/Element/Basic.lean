import LoxLexer.Number.Digits
import LoxLexer.Token.Kind

/-!
# Lexical elements

A Lox text is a row of elements.  Tokens, blanks and comments are elements,
and so are the two kinds of errors: a string that is never closed, and a
character that starts nothing else.
-/

namespace LoxLexer

/-- Letters are ASCII letters and the underscore. -/
def isLetter (c : Char) : Bool :=
  ('a' ≤ c && c ≤ 'z') || ('A' ≤ c && c ≤ 'Z') || c == '_'

/-- What a word may go on with. -/
def isWordCharacter (c : Char) : Bool :=
  isLetter c || isDigit c

def isBlank (c : Char) : Bool :=
  c == ' ' || c == '\t' || c == '\r' || c == '\n'

inductive Form where
  | blank
  | lineComment
  | blockComment
  /-- A block comment that runs to the end of the text. -/
  | openComment
  | string
  /-- A string that runs to the end of the text. -/
  | openString
  | number
  | word
  | symbol (kind : Kind)
  | stray
deriving DecidableEq, Repr

structure Element where
  form : Form
  text : List Char
deriving DecidableEq, Repr

/-- The greatest number of block comments open at once in a text, when `opened`
are open before it and `deepest` have been open at once so far. -/
def commentDepth (opened deepest : Nat) : List Char → Nat
  | [] => deepest
  | '*' :: '/' :: text => commentDepth (opened - 1) deepest text
  | '/' :: '*' :: text => commentDepth (opened + 1) (max deepest (opened + 1)) text
  | _ :: text => commentDepth opened deepest text

/-- How deep the block comments of an element nest. -/
def Element.depth (element : Element) : Nat :=
  match element.form with
  | .blockComment | .openComment => commentDepth 0 0 element.text
  | _ => 0

end LoxLexer
