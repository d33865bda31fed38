/-!
# Files

The program sees files only through their paths: a path can be read, and it
may or may not lead to a regular file.  The two go through one value, so the
same program runs on a real directory and on one that is written down.
-/

namespace LoxLexer

inductive ReadFailure where
  | missing
  | isDirectory
  | notDirectory
  | nameTooLong
  /-- The path holds a NUL character. -/
  | badName
  /-- The bytes are no UTF-8. -/
  | notText
  | other (description : String)
deriving DecidableEq, Repr

namespace ReadFailure

def message : ReadFailure → String
  | .missing => "No such file or directory (os error 2)"
  | .isDirectory => "Is a directory (os error 21)"
  | .notDirectory => "Not a directory (os error 20)"
  | .nameTooLong => "File name too long (os error 36)"
  | .badName => "file name contained an unexpected NUL byte"
  | .notText => "stream did not contain valid UTF-8"
  | .other description => description

end ReadFailure

structure Files where
  read : String → Except ReadFailure ByteArray
  isFile : String → Bool

namespace Files

def readText (files : Files) (path : String) : Except ReadFailure String :=
  match files.read path with
  | .ok bytes =>
    match String.fromUTF8? bytes with
    | some text => .ok text
    | none => .error .notText
  | .error failure => .error failure

def join (directory name : String) : String :=
  if directory.isEmpty || directory.endsWith "/" then directory ++ name
  else directory ++ "/" ++ name

end Files

end LoxLexer
