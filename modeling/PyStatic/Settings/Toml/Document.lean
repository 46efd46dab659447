import PyStatic.Settings.Toml.Value

/-!
Contract: reading a settings file.
-/

namespace PyStatic.Toml

inductive Line where
  | setting (key : Key) (value : TomlValue)
  | tableHeader (key : Key)
  | rowHeader (key : Key)

def header (closing : List Char) : Reader Key := fun chars => do
  let (key, rest) ← key chars
  return (key, ← lineEnd? (← skip? closing rest))

def line : Reader Line
  | '[' :: '[' :: rest => (header [']', ']'] rest).map fun (key, rest) => (.rowHeader key, rest)
  | '[' :: rest => (header [']'] rest).map fun (key, rest) => (.tableHeader key, rest)
  | chars => do
      let ((key, value), rest) ← setting value chars
      return (.setting key value, ← lineEnd? rest)

def linesWithin : Nat → List Char → Option (List Line)
  | 0, _ => none
  | limit + 1, chars =>
    match dropBlanks chars with
    | [] => some []
    | chars =>
      match lineEnd? chars with
      | some rest => linesWithin limit rest
      | none => do
          let (first, rest) ← line chars
          let more ← linesWithin limit rest
          return first :: more

structure Part where
  key : Key
  isRow : Bool
  settings : List (Key × TomlValue)

def parts : List Line → List (Key × TomlValue) × List Part
  | [] => ([], [])
  | .setting key value :: rest =>
    let (settings, later) := parts rest
    ((key, value) :: settings, later)
  | .tableHeader key :: rest =>
    let (settings, later) := parts rest
    ([], ⟨key, false, settings⟩ :: later)
  | .rowHeader key :: rest =>
    let (settings, later) := parts rest
    ([], ⟨key, true, settings⟩ :: later)

def addPart (table : Table) (part : Part) : Option Table :=
  if part.isRow then table.addToRow part.key part.settings
  else table.addTable part.key part.settings

def assemble (lines : List Line) : Option Table := do
  let (settings, later) := parts lines
  later.foldlM addPart (← (Table.mk .header []).assignAll settings)

def dropMark : List Char → List Char
  | '\uFEFF' :: rest => rest
  | chars => chars

def parse? (text : String) : Option (List (String × TomlValue)) := do
  let chars := dropMark text.toList
  let table ← assemble (← linesWithin (chars.length + 1) chars)
  return table.toEntries

end PyStatic.Toml
