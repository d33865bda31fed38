import LoxLexer.Options.Basic
import LoxLexer.Options.Problem

/-!
# The configuration language

The texts that set options, given without any reference to how they are read.  A
configuration is an object with a member for some of the options, each at most once, or an
array of the values of both (`Holder`), and nothing but blanks around it
(`Configuration`).

Whatever stands in quotes may be written with escapes, and blanks may stand between any two
symbols.  An option is set to what its member says; without a member, and with the member
`null`, it stays unset.
-/

namespace LoxLexer

namespace Configuration

def Blank (text : List Char) : Prop :=
  ∀ c ∈ text, c ∈ [' ', '\n', '\t', '\r']

def lowerDigits : List Char :=
  ['0', '1', '2', '3', '4', '5', '6', '7', '8', '9', 'a', 'b', 'c', 'd', 'e', 'f']

def upperDigits : List Char :=
  ['0', '1', '2', '3', '4', '5', '6', '7', '8', '9', 'A', 'B', 'C', 'D', 'E', 'F']

/-- The digit of a number below 16, in either case. -/
def HexDigit (c : Char) (n : Nat) : Prop :=
  lowerDigits[n]? = some c ∨ upperDigits[n]? = some c

/-- Four hexadecimal digits and their number. -/
inductive CodeUnit : List Char → Nat → Prop where
  | mk {a b c d : Char} {i j k l : Nat} (ha : HexDigit a i) (hb : HexDigit b j)
      (hc : HexDigit c k) (hd : HexDigit d l) :
      CodeUnit [a, b, c, d] (16 * (16 * (16 * i + j) + k) + l)

/-- The letters that stand for a character behind a backslash. -/
def letters : List (Char × Char) :=
  [('"', '"'), ('\\', '\\'), ('/', '/'), ('b', '\x08'), ('f', '\x0c'), ('n', '\n'),
    ('r', '\r'), ('t', '\t')]

/-- What stands for a character behind a backslash: a letter, the number of the character,
or for a character beyond four digits the two numbers that make up its own. -/
inductive Escape : List Char → Char → Prop where
  | letter {letter c : Char} (hletter : (letter, c) ∈ letters) : Escape [letter] c
  | unit {digits : List Char} {c : Char} (hunit : CodeUnit digits c.toNat) :
      Escape ('u' :: digits) c
  | pair {leading trailing : List Char} {high low : Nat} {c : Char}
      (hleading : CodeUnit leading high) (hhigh : 0xd800 ≤ high ∧ high ≤ 0xdbff)
      (htrailing : CodeUnit trailing low) (hlow : 0xdc00 ≤ low ∧ low ≤ 0xdfff)
      (hc : c.toNat = 0x10000 + (high - 0xd800) * 0x400 + (low - 0xdc00)) :
      Escape ('u' :: (leading ++ '\\' :: 'u' :: trailing)) c

/-- What stands between two quotes, and the characters that it stands for. -/
inductive Inside : List Char → List Char → Prop where
  | nil : Inside [] []
  | plain {c : Char} {text meant : List Char} (hquote : c ≠ '"') (hbackslash : c ≠ '\\')
      (hcontrol : 0x20 ≤ c.toNat) (hrest : Inside text meant) : Inside (c :: text) (c :: meant)
  | escape {escape : List Char} {c : Char} {text meant : List Char} (hescape : Escape escape c)
      (hrest : Inside text meant) : Inside ('\\' :: (escape ++ text)) (c :: meant)

inductive Quoted : List Char → String → Prop where
  | mk {inside : List Char} {meant : String} (hinside : Inside inside meant.toList) :
      Quoted ('"' :: (inside ++ ['"'])) meant

/-- A value for the output: a format by its name, which may also be the name of an empty
member. -/
inductive Output : List Char → Option OutputFormat → Prop where
  | null : Output ['n', 'u', 'l', 'l'] none
  | name {name : List Char} {format : OutputFormat} (hname : Quoted name format.name) :
      Output name (some format)
  | member {name : List Char} {format : OutputFormat} {first second third last : List Char}
      (hname : Quoted name format.name) (hfirst : Blank first) (hsecond : Blank second)
      (hthird : Blank third) (hlast : Blank last) :
      Output ('{' :: (first ++ name ++ second ++ ':' :: (third ++ ['n', 'u', 'l', 'l'] ++ last ++
        ['}']))) (some format)

inductive Pretty : List Char → Option Bool → Prop where
  | null : Pretty ['n', 'u', 'l', 'l'] none
  | yes : Pretty ['t', 'r', 'u', 'e'] (some true)
  | no : Pretty ['f', 'a', 'l', 's', 'e'] (some false)

/-- What a member says. -/
inductive Setting where
  | output (value : Option OutputFormat)
  | pretty (value : Option Bool)

def Setting.option : Setting → OptionName
  | .output _ => .output
  | .pretty _ => .pretty

inductive Value : List Char → Setting → Prop where
  | output {text : List Char} {value : Option OutputFormat} (hvalue : Output text value) :
      Value text (.output value)
  | pretty {text : List Char} {value : Option Bool} (hvalue : Pretty text value) :
      Value text (.pretty value)

inductive Member : List Char → Setting → Prop where
  | mk {name before after value : List Char} {setting : Setting}
      (hname : Quoted name setting.option.name) (hbefore : Blank before) (hafter : Blank after)
      (hvalue : Value value setting) : Member (name ++ before ++ ':' :: (after ++ value)) setting

/-- Members with a comma between any two of them. -/
inductive MemberRow : List Char → List Setting → Prop where
  | one {member : List Char} {setting : Setting} (hmember : Member member setting) :
      MemberRow member [setting]
  | cons {member before after row : List Char} {setting : Setting} {settings : List Setting}
      (hmember : Member member setting) (hbefore : Blank before) (hafter : Blank after)
      (hrow : MemberRow row settings) :
      MemberRow (member ++ before ++ ',' :: (after ++ row)) (setting :: settings)

/-- The options that members set. -/
structure Sets (settings : List Setting) (options : Options) : Prop where
  output : ∀ format, options.output = some format ↔ .output (some format) ∈ settings
  pretty : ∀ draws, options.pretty = some draws ↔ .pretty (some draws) ∈ settings

inductive Holder : List Char → Options → Prop where
  | empty {blank : List Char} (hblank : Blank blank) : Holder ('{' :: (blank ++ ['}'])) .unset
  | object {before row after : List Char} {settings : List Setting} {options : Options}
      (hbefore : Blank before) (hrow : MemberRow row settings) (hafter : Blank after)
      (hnodup : (settings.map Setting.option).Nodup) (hsets : Sets settings options) :
      Holder ('{' :: (before ++ row ++ after ++ ['}'])) options
  | array {output pretty first second third last : List Char} {options : Options}
      (houtput : Output output options.output) (hpretty : Pretty pretty options.pretty)
      (hfirst : Blank first) (hsecond : Blank second) (hthird : Blank third)
      (hlast : Blank last) :
      Holder ('[' :: (first ++ output ++ second ++ ',' :: (third ++ pretty ++ last ++ [']'])))
        options

end Configuration

/-- A text that sets the given options. -/
inductive Configuration : List Char → Options → Prop where
  | mk {before holder after : List Char} {options : Options}
      (hbefore : Configuration.Blank before) (hholder : Configuration.Holder holder options)
      (hafter : Configuration.Blank after) : Configuration (before ++ holder ++ after) options

end LoxLexer
