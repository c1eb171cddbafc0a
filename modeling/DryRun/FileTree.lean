import DryRun.Text

/-!
# Files

Why reading fails, and a tree of files in memory that can stand in for a disk.  A path is followed
step by step from the root or from the current directory, and every step but the last must lead to a
directory.
-/

namespace DryRun

/-- Why a file or a stream cannot be read as text. -/
inductive ReadError where
  | notFound
  | notADirectory
  | isADirectory
  | nameTooLong
  | notUtf8
  /-- Any other reason, in the words of the system. -/
  | other (message : Text)
deriving DecidableEq, Repr

def ReadError.message : ReadError → Text
  | notFound => "No such file or directory (os error 2)".toList
  | notADirectory => "Not a directory (os error 20)".toList
  | isADirectory => "Is a directory (os error 21)".toList
  | nameTooLong => "File name too long (os error 36)".toList
  | notUtf8 => "stream did not contain valid UTF-8".toList
  | other message => message

/-- What a path can lead to. -/
inductive FileNode where
  | directory
  /-- A file with its content, if that is UTF-8. -/
  | file (content : Option Text)
deriving DecidableEq, Repr

/-- A tree of files.  A place in it is the list of names on the way from the root. -/
structure FileTree where
  /-- The current directory. -/
  here : List Text := []
  /-- What lies at a place, latest first; the root is always a directory. -/
  nodes : List (List Text × FileNode) := []
deriving DecidableEq, Repr

namespace FileTree

/-- What lies at a place. -/
def node? (tree : FileTree) : List Text → Option FileNode
  | [] => some .directory
  | place => tree.nodes.lookup place

/-- The tree with something at a place, and with directories on the way there. -/
def add (tree : FileTree) (place : List Text) (node : FileNode) : FileTree :=
  let onTheWay := (List.range place.length).map fun n => place.take n
  let missing := onTheWay.filter fun p => (tree.node? p).isNone
  { tree with nodes := (place, node) :: missing.map (·, .directory) ++ tree.nodes }

/-- The longest name a directory can hold, in bytes. -/
def longestName : Nat := 255

/-- The longest path that can be followed, in bytes. -/
def longestPath : Nat := 4095

/-- What the steps of a path lead to from a place. -/
def follow (tree : FileTree) (place : List Text) : List Text → Except ReadError FileNode
  | [] =>
    match tree.node? place with
    | some node => .ok node
    | none => .error .notFound
  | step :: rest =>
    match tree.node? place with
    | none => .error .notFound
    | some (.file _) => .error .notADirectory
    | some .directory =>
      if step = [] ∨ step = ['.'] then follow tree place rest
      else if step = ['.', '.'] then follow tree place.dropLast rest
      else if longestName < step.byteLength then .error .nameTooLong
      else follow tree (place ++ [step]) rest

/-- What a path leads to. -/
def resolve (tree : FileTree) (path : Text) : Except ReadError FileNode :=
  if path = [] then .error .notFound
  else if longestPath < path.byteLength then .error .nameTooLong
  else follow tree (if path.head? = some '/' then [] else tree.here) (path.splitOn '/')

/-- Whether a path leads anywhere. -/
def contains (tree : FileTree) (path : Text) : Bool := (tree.resolve path).toOption.isSome

/-- The text of the file that a path leads to. -/
def read (tree : FileTree) (path : Text) : Except ReadError Text :=
  match tree.resolve path with
  | .error e => .error e
  | .ok .directory => .error .isADirectory
  | .ok (.file none) => .error .notUtf8
  | .ok (.file (some content)) => .ok content

end FileTree

end DryRun
