import MissionText.Host.FileName

/-!
# Directories

What a host can read, as a value: a tree of directories and files, and a place
in it. A path is followed from a place one name at a time, inwards or outwards,
and reading what is not there, or is not what was asked for, fails for a
reason.
-/

namespace MissionText

/-- Why something could not be read. -/
inductive ReadFailure where
  | notFound
  | notDirectory
  | isDirectory
  | notUnicode
  | other (reason : String)
  deriving DecidableEq, Repr

/-- The reason as it is shown. -/
def ReadFailure.reason : ReadFailure → String
  | notFound => "No such file or directory (os error 2)"
  | notDirectory => "Not a directory (os error 20)"
  | isDirectory => "Is a directory (os error 21)"
  | notUnicode => "stream did not contain valid UTF-8"
  | other reason => reason

/-- The text of some bytes. -/
def unicodeText (bytes : ByteArray) : Except ReadFailure String :=
  match String.fromUTF8? bytes with
  | some text => .ok text
  | none => .error .notUnicode

/-- What reading each entry of a directory gave, by the names of the
entries. -/
abbrev Listing := List (FileName × Except ReadFailure ByteArray)

/-- A file, or a directory with what is in it. -/
inductive FileTree where
  | file (bytes : ByteArray)
  | directory (entries : List (String × FileTree))

namespace FileTree

/-- A directory with nothing in it. -/
def empty : FileTree := .directory []

/-- The entry of a name. -/
def child? (name : String) : FileTree → Option FileTree
  | .file _ => none
  | .directory entries => (entries.find? (·.1 == name)).map (·.2)

/-- The tree with something put at a path, and the directories made that lead
there. A file that stands in the way gives way to a directory. -/
def put (tree : FileTree) (added : FileTree) : List String → FileTree
  | [] => added
  | name :: path =>
    let entries := match tree with
      | .file _ => []
      | .directory entries => entries
    let inner := (tree.child? name).getD empty
    .directory (entries.filter (·.1 != name) ++ [(name, inner.put added path)])

/-- The names in a path. Empty ones say nothing. -/
def pathNames (path : String) : List String :=
  ((path.toList.splitOn '/').map String.ofList).filter (· != "")

/-- The bytes of the file that a tree is. -/
def bytes : FileTree → Except ReadFailure ByteArray
  | .file bytes => .ok bytes
  | .directory _ => .error .isDirectory

end FileTree

/-- Something in a tree, and the directories around it, the innermost first. -/
structure Place where
  here : FileTree
  around : List FileTree

namespace Place

/-- The place around a place. The outermost directory is around itself. -/
def outer (place : Place) : Place :=
  match place.around with
  | [] => place
  | outer :: outermost => ⟨outer, outermost⟩

/-- The outermost directory. -/
def root (place : Place) : Place := ⟨place.around.getLast?.getD place.here, []⟩

/-- The place that a name leads to. No name leads on from a file. -/
def enter (place : Place) (name : String) : Except ReadFailure Place :=
  match place.here with
  | .file _ => .error .notDirectory
  | .directory _ =>
    if name = "." then .ok place
    else if name = ".." then .ok place.outer
    else
      match place.here.child? name with
      | none => .error .notFound
      | some inner => .ok ⟨inner, place.here :: place.around⟩

/-- What stands at a path. A path that begins with a slash is followed from the
outermost directory, and only a directory stands at one that ends in a slash.
Nothing stands at an empty path. -/
def find (place : Place) (path : String) : Except ReadFailure FileTree :=
  if path.isEmpty then .error .notFound
  else do
    let start := if path.toList.head? = some '/' then place.root else place
    let found ← (FileTree.pathNames path).foldlM enter start
    match found.here with
    | .file _ =>
      if path.toList.getLast? = some '/' then .error .notDirectory else .ok found.here
    | .directory _ => .ok found.here

/-- The bytes of the file at a path. -/
def read (place : Place) (path : String) : Except ReadFailure ByteArray := do
  (← place.find path).bytes

/-- The entries of the directory at a path. -/
def list (place : Place) (path : String) : Except ReadFailure Listing := do
  match ← place.find path with
  | .file _ => .error .notDirectory
  | .directory entries => .ok (entries.map fun (name, entry) => (.ofText name, entry.bytes))

end Place

/-- What every host has in its outermost directory: a device that is always
empty, and room for temporary files. -/
def hostRoot : FileTree :=
  .directory [("dev", .directory [("null", .file .empty)]), ("tmp", .empty)]

/-- The place of a tree on a host that has nothing else in it. -/
def FileTree.onHost (tree : FileTree) : Place := ⟨tree, [.empty, hostRoot]⟩

end MissionText
