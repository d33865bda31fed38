/-!
# Message templates

A template has numbered places, written as a number in braces.  Filling one in
takes the arguments in order and replaces every place of that number in the
text reached so far, so an argument may bring in places of later numbers.
-/

namespace LoxLexer.Placeholder

def mark (index : Nat) : List Char :=
  '{' :: (Nat.toDigits 10 index ++ ['}'])

/-- Replaces `pattern` from left to right, once the next `skipped` characters,
which belong to an occurrence already replaced, have been dropped. -/
def replaceAfter (pattern value : List Char) : Nat → List Char → List Char
  | _, [] => []
  | skipped + 1, _ :: text => replaceAfter pattern value skipped text
  | 0, c :: text =>
    if pattern.isPrefixOf (c :: text) then
      value ++ replaceAfter pattern value (pattern.length - 1) text
    else
      c :: replaceAfter pattern value 0 text

/-- Replaces all occurrences of a pattern that do not overlap, from left to right. -/
def replaceAll (pattern value text : List Char) : List Char :=
  replaceAfter pattern value 0 text

/-- Fills in the places from number `index` on. -/
def fillFrom (index : Nat) (text : List Char) : List (List Char) → List Char
  | [] => text
  | argument :: arguments =>
    fillFrom (index + 1) (replaceAll (mark index) argument text) arguments

/-- The text of a template whose places are taken by the arguments. -/
def fill (template : String) (arguments : List String) : String :=
  String.ofList (fillFrom 0 template.toList (arguments.map String.toList))

end LoxLexer.Placeholder
