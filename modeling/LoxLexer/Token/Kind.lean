/-!
# Token kinds

The kinds of Lox tokens, and the tables that decide a kind: the characters
that are a token by themselves, the operators that an equals sign extends, and
the reserved words.
-/

namespace LoxLexer

inductive Kind where
  | leftParen | rightParen | leftBrace | rightBrace
  | comma | dot | minus | plus | semicolon | slash | star
  | not | notEqual | equal | greater | greaterEqual | less | lessEqual | gets
  | identifier | string | number
  | and | «class» | else | false | fun | for | if | nil | or
  | print | return | super | this | true | var | while
  | eof
deriving DecidableEq, Repr

namespace Kind

/-- The name that token listings use. -/
def name : Kind → String
  | .leftParen => "LEFT_PAREN"
  | .rightParen => "RIGHT_PAREN"
  | .leftBrace => "LEFT_BRACE"
  | .rightBrace => "RIGHT_BRACE"
  | .comma => "COMMA"
  | .dot => "DOT"
  | .minus => "MINUS"
  | .plus => "PLUS"
  | .semicolon => "SEMICOLON"
  | .slash => "SLASH"
  | .star => "STAR"
  | .not => "NOT"
  | .notEqual => "NOT_EQUAL"
  | .equal => "EQUAL"
  | .greater => "GREATER"
  | .greaterEqual => "GREATER_EQUAL"
  | .less => "LESS"
  | .lessEqual => "LESS_EQUAL"
  | .gets => "GETS"
  | .identifier => "IDENTIFIER"
  | .string => "STRING"
  | .number => "NUMBER"
  | .and => "AND"
  | .class => "CLASS"
  | .else => "ELSE"
  | .false => "FALSE"
  | .fun => "FUN"
  | .for => "FOR"
  | .if => "IF"
  | .nil => "NIL"
  | .or => "OR"
  | .print => "PRINT"
  | .return => "RETURN"
  | .super => "SUPER"
  | .this => "THIS"
  | .true => "TRUE"
  | .var => "VAR"
  | .while => "WHILE"
  | .eof => "EOF"

def all : List Kind :=
  [.leftParen, .rightParen, .leftBrace, .rightBrace,
    .comma, .dot, .minus, .plus, .semicolon, .slash, .star,
    .not, .notEqual, .equal, .greater, .greaterEqual, .less, .lessEqual, .gets,
    .identifier, .string, .number,
    .and, .class, .else, .false, .fun, .for, .if, .nil, .or,
    .print, .return, .super, .this, .true, .var, .while,
    .eof]

def ofName? (name : String) : Option Kind :=
  all.find? fun kind => kind.name == name

/-- Joins the words of an upper-case name, each with one capital letter. -/
def joinWords (capital : Bool) : List Char → List Char
  | [] => []
  | c :: text =>
    if c = '_' then joinWords Bool.true text
    else (if capital then c else c.toLower) :: joinWords Bool.false text

/-- The name in mixed case, as in `LeftParen`. -/
def mixedCaseName (kind : Kind) : String :=
  String.ofList (joinWords Bool.true kind.name.toList)

/-- The characters that always form a token by themselves. -/
def ofPunctuation? : Char → Option Kind
  | '(' => some .leftParen
  | ')' => some .rightParen
  | '{' => some .leftBrace
  | '}' => some .rightBrace
  | ',' => some .comma
  | '.' => some .dot
  | '-' => some .minus
  | '+' => some .plus
  | ';' => some .semicolon
  | '*' => some .star
  | _ => none

/-- The two kinds of an operator that an equals sign may extend. -/
structure OperatorForms where
  withEquals : Kind
  bare : Kind
deriving DecidableEq, Repr

/-- The operators that an equals sign extends.  The equals sign alone assigns. -/
def operatorForms? : Char → Option OperatorForms
  | '!' => some ⟨.notEqual, .not⟩
  | '=' => some ⟨.equal, .gets⟩
  | '<' => some ⟨.lessEqual, .less⟩
  | '>' => some ⟨.greaterEqual, .greater⟩
  | _ => none

def reservedWords : List (String × Kind) :=
  [("and", .and), ("class", .class), ("else", .else), ("false", .false),
    ("for", .for), ("fun", .fun), ("if", .if), ("nil", .nil), ("or", .or),
    ("print", .print), ("return", .return), ("super", .super), ("this", .this),
    ("true", .true), ("var", .var), ("while", .while)]

def ofReservedWord? (word : String) : Option Kind :=
  reservedWords.lookup word

/-- The kind of a word, which is an identifier unless all of it is reserved. -/
def ofWord (word : String) : Kind :=
  (ofReservedWord? word).getD .identifier

def isReserved (kind : Kind) : Bool :=
  reservedWords.any fun entry => entry.2 == kind

end Kind

end LoxLexer
