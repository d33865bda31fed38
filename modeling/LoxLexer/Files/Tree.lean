import LoxLexer.Files.Basic
import LoxLexer.Text.Measure

/-!
# Directory trees

A tree lists its files and its directories, each under the way that leads down
to it from the top.  A tree built from paths holds the directories that the
paths pass as well.  Paths into a tree are followed one name at a time, so `..`
leads back from a directory only if that directory exists.  What lies above the
tree is a directory in which no name is known.
-/

namespace LoxLexer

inductive Node where
  | file (content : ByteArray)
  | directory

structure Tree where
  /-- The names on the way to an entry, the outermost one first. -/
  entries : List (List String × Node)

namespace Tree

/-- The names of a path, between its slashes. -/
def names (path : String) : List String :=
  (path.toList.splitOn '/').map String.ofList

/-- The way that a name leads on to. -/
def extend (way : List String) (name : String) : List String :=
  if name = "" ∨ name = "." then way
  else if name = ".." then way.dropLast
  else way ++ [name]

/-- The entries for a node at the end of some names: the node, and the
directories that the names pass.  What is reached last comes first. -/
def entriesAt (node : Node) (way : List String) : List String → List (List String × Node)
  | [] => [(way, node)]
  | name :: names => entriesAt node (extend way name) names ++ [(way, .directory)]

/-- The tree with the given entries, whose paths lead down from its top.  Of
entries for the same way the last one counts. -/
def ofPaths (entries : List (String × Node)) : Tree :=
  ⟨entries.reverse.flatMap fun (path, node) => entriesAt node [] (names path)⟩

/-- What stands at the end of a way down from the top, which is a directory. -/
def node? (tree : Tree) (way : List String) : Option Node :=
  if way.isEmpty then some .directory else tree.entries.lookup way

/-- A place that has been reached on a path. -/
inductive Location where
  /-- The end of a way down from the top, the innermost name first. -/
  | inside (way : List String)
  /-- Somewhere above the top. -/
  | outside

def Location.parent : Location → Location
  | .inside (_ :: way) => .inside way
  | _ => .outside

def nodeAt (tree : Tree) : Location → Option Node
  | .inside way => tree.node? way.reverse
  | .outside => some .directory

/-- The place of a name in a directory. -/
def child (tree : Tree) (name : String) (location : Location) : Except ReadFailure Location :=
  if 255 < byteLength name.toList then
    .error .nameTooLong
  else
    match location with
    | .inside way =>
      if (tree.node? (name :: way).reverse).isSome then .ok (.inside (name :: way))
      else .error .missing
    | .outside => .error .missing

def follow (tree : Tree) (location : Location) : List String → Except ReadFailure Location
  | [] => .ok location
  | name :: names =>
    match tree.nodeAt location with
    | none => .error .missing
    | some (.file _) => .error .notDirectory
    | some .directory =>
      if name = "" ∨ name = "." then tree.follow location names
      else if name = ".." then tree.follow location.parent names
      else
        match tree.child name location with
        | .ok location => tree.follow location names
        | .error failure => .error failure

def locate (tree : Tree) (path : String) : Except ReadFailure Location :=
  if path.toList.contains '\x00' then .error .badName
  else if path.isEmpty then .error .missing
  else if 4096 ≤ byteLength path.toList then .error .nameTooLong
  else if path.startsWith "/" then tree.follow .outside (names path)
  else tree.follow (.inside []) (names path)

def read (tree : Tree) (path : String) : Except ReadFailure ByteArray :=
  match tree.locate path with
  | .ok location =>
    match tree.nodeAt location with
    | some (.file content) => .ok content
    | some .directory => .error .isDirectory
    | none => .error .missing
  | .error failure => .error failure

def files (tree : Tree) : Files where
  read := tree.read
  isFile path := (tree.read path).isOk

end Tree

end LoxLexer
