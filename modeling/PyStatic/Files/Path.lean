import PyStatic.Text.Split

/-!
Contract: names of files and directories, with slashes between their parts.

Empty parts and the part `.` say nothing, except for a leading `.`, which is kept; `..` is a part
like any other and is never resolved here. The text of a path is kept as it was written.
-/

namespace PyStatic

inductive PathPart where
  | root
  | here
  | up
  | name (name : String)
  deriving DecidableEq, Repr

structure Path where
  start : String
  pieces : List String
  deriving DecidableEq, Repr

namespace Path

def isIdle (piece : String) : Bool :=
  piece == "" || piece == "."

def ofText (text : String) : Path :=
  match text.toList with
  | '/' :: rest => ⟨"/", Text.split '/' (String.ofList rest)⟩
  | ['.'] => ⟨".", [""]⟩
  | '.' :: '/' :: rest => ⟨".", Text.split '/' (String.ofList ('/' :: rest))⟩
  | _ => ⟨"", Text.split '/' text⟩

def text (path : Path) : String :=
  path.start ++ String.intercalate "/" path.pieces

def trimmed (path : Path) : Path :=
  { path with pieces := (path.pieces.reverse.dropWhile isIdle).reverse }

def startPart : String → Option PathPart
  | "/" => some .root
  | "." => some .here
  | _ => none

def piecePart (piece : String) : Option PathPart :=
  if isIdle piece then none
  else if piece == ".." then some .up
  else some (.name piece)

def parts (path : Path) : List PathPart :=
  (startPart path.start).toList ++ path.pieces.filterMap piecePart

def isAbsolute (path : Path) : Bool :=
  path.start == "/"

def fileName? (path : Path) : Option String :=
  match path.parts.getLast? with
  | some (.name name) => some name
  | _ => none

def stemOf (name : String) : String :=
  let backwards := name.toList.reverse
  let before := (backwards.dropWhile (· != '.')).tail.reverse
  if before.isEmpty then name else String.ofList before

def fileStem? (path : Path) : Option String :=
  path.fileName?.map stemOf

def above (start : String) : List String → List Path
  | [] => if start == "." then [⟨"", []⟩] else []
  | piece :: before =>
    if isIdle piece then above start before
    else trimmed ⟨start, before.reverse⟩ :: above start before

def parents (path : Path) : List Path :=
  above path.start path.pieces.reverse

def parent? (path : Path) : Option Path :=
  path.parents.head?

def joinText (path inner : String) : String :=
  if inner.startsWith "/" then inner
  else if path == "" || path.endsWith "/" then path ++ inner
  else path ++ "/" ++ inner

def join (path : Path) (inner : String) : Path :=
  ofText (joinText path.text inner)

def dropPieces : Nat → List String → List String
  | 0, pieces => pieces
  | _ + 1, [] => []
  | count + 1, piece :: rest =>
    if isIdle piece then dropPieces (count + 1) rest else dropPieces count rest

def relativeTo? (path base : Path) : Option Path :=
  if path.start == base.start && base.parts.isPrefixOf path.parts then
    let pieces := dropPieces (base.pieces.filterMap piecePart).length path.pieces
    some (trimmed ⟨"", pieces.dropWhile isIdle⟩)
  else
    none

end Path

end PyStatic
