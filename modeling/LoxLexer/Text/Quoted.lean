import LoxLexer.Text.Concealed

/-!
# Texts quoted in messages

A quoted text stays readable in one line: quotes and backslashes are escaped,
and characters that would not show are written by letter or by number.
-/

namespace LoxLexer.Quoted

/-- How a character stands inside quotes. -/
def escape (c : Char) : List Char :=
  if c = '\x00' then ['\\', '0']
  else if c = '\t' then ['\\', 't']
  else if c = '\r' then ['\\', 'r']
  else if c = '\n' then ['\\', 'n']
  else if c = '"' then ['\\', '"']
  else if c = '\\' then ['\\', '\\']
  else if isConcealed c then
    ['\\', 'u', '{'] ++ Nat.toDigits 16 c.toNat ++ ['}']
  else [c]

def quote (text : String) : String :=
  String.ofList ('"' :: (text.toList.flatMap escape ++ ['"']))

end LoxLexer.Quoted
