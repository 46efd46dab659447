import PyStatic.Files.Path

/-!
Contract: the files and directories that there are.

A path is followed piece by piece from the root: every piece, also one that says nothing, needs a
directory to stand in, and `..` leads out of the directory that the pieces before it led to.
-/

namespace PyStatic

inductive FileEntry where
  | directory
  | file (bytes : ByteArray)

structure FileTree where
  entries : List (List String × FileEntry) := []

namespace FileTree

def get? (tree : FileTree) : List String → Option FileEntry
  | [] => some .directory
  | names => tree.entries.lookup names

def follow? (tree : FileTree) (place : List String) (piece : String) : Option (List String) :=
  match tree.get? place with
  | some .directory =>
    if Path.isIdle piece then some place
    else if piece == ".." then some place.dropLast
    else if (tree.get? (place ++ [piece])).isSome then some (place ++ [piece])
    else none
  | _ => none

def entry? (tree : FileTree) (path : Path) : Option FileEntry :=
  (path.pieces.foldlM tree.follow? []).bind tree.get?

def holds (tree : FileTree) (path : Path) : Bool :=
  (tree.entry? path).isSome

def read? (tree : FileTree) (path : Path) : Option ByteArray :=
  match tree.entry? path with
  | some (.file bytes) => some bytes
  | _ => none

def holdsFile (tree : FileTree) (path : Path) : Bool :=
  (tree.read? path).isSome

def put (tree : FileTree) (names : List String) (entry : FileEntry) : FileTree :=
  if (tree.get? names).isSome then tree else ⟨(names, entry) :: tree.entries⟩

def namesOf (path : Path) : List String :=
  path.parts.filterMap fun
    | .name name => some name
    | _ => none

def putDirectories (tree : FileTree) (names : List String) : FileTree :=
  (List.range names.length).foldl (fun tree count => tree.put (names.take (count + 1)) .directory)
    tree

def addDirectory (tree : FileTree) (path : Path) : FileTree :=
  tree.putDirectories (namesOf path)

def addFile (tree : FileTree) (path : Path) (bytes : ByteArray) : FileTree :=
  (tree.putDirectories (namesOf path).dropLast).put (namesOf path) (.file bytes)

def packageMarker : String := "__init__.py"

def isPackage (tree : FileTree) (base directory : Path) : Bool :=
  directory.parts != base.parts && tree.holdsFile (directory.join packageMarker) &&
    directory.fileName?.isSome

def packageOf (tree : FileTree) (file base : Path) : String :=
  ".".intercalate ((file.parents.takeWhile (tree.isPackage base)).filterMap Path.fileName?).reverse

end FileTree

end PyStatic
