import PyStatic.Settings.Toml.Key

/-!
Contract: the tables of a settings file while they are built.

A table is given once: by a header, or by keys with dots that lead through it.
-/

namespace PyStatic.Toml

/-- By a header, on the way of a header, or on the way of a key with dots. -/
inductive Origin where
  | header
  | route
  | dotted
  deriving DecidableEq, Repr

mutual

inductive Node where
  | value (value : TomlValue)
  | table (table : Table)
  | tables (earlier : List Table) (last : Table)

inductive Table where
  | mk (origin : Origin) (entries : List (String × Node))

end

namespace Table

def origin : Table → Origin
  | mk origin _ => origin

def entries : Table → List (String × Node)
  | mk _ entries => entries

def find? (table : Table) (name : String) : Option Node :=
  table.entries.lookup name

def set (table : Table) (name : String) (node : Node) : Table :=
  if (table.find? name).isSome then
    mk table.origin (table.entries.map fun entry => if entry.1 == name then (name, node) else entry)
  else mk table.origin (table.entries ++ [(name, node)])

def erase (table : Table) (name : String) : Table :=
  mk table.origin (table.entries.filter (·.1 != name))

/-- Missing tables on the way are made; a row leads to its last table. -/
def updateAt (made : Origin) (change : Table → Option Table) : List String → Table → Option Table
  | [], table => change table
  | name :: path, table =>
    match table.find? name with
    | none =>
      (updateAt made change path (mk made [])).map fun child => table.set name (.table child)
    | some (.value _) => none
    | some (.table child) =>
      if made = .dotted ∧ child.origin = .header then none
      else (updateAt made change path child).map fun child => table.set name (.table child)
    | some (.tables earlier last) =>
      (updateAt made change path last).map fun last => table.set name (.tables earlier last)

def assign (table : Table) (setting : Key × TomlValue) : Option Table :=
  let (key, value) := setting
  let put (inner : Table) : Option Table :=
    if key.path ≠ [] ∧ inner.origin ≠ .dotted then none
    else if (inner.find? key.name).isSome then none
    else some (inner.set key.name (.value value))
  table.updateAt .dotted put key.path

def assignAll (table : Table) (settings : List (Key × TomlValue)) : Option Table :=
  settings.foldlM assign table

def addTable (table : Table) (key : Key) (settings : List (Key × TomlValue)) : Option Table :=
  let put (parent : Table) : Option Table := do
    let start ← match parent.find? key.name with
      | none => some []
      | some (.table found) => if found.origin = .route then some found.entries else none
      | some _ => none
    let filled ← (mk .header start).assignAll settings
    return (parent.erase key.name).set key.name (.table filled)
  table.updateAt .route put key.path

def addToRow (table : Table) (key : Key) (settings : List (Key × TomlValue)) : Option Table :=
  let put (parent : Table) : Option Table := do
    let earlier ← match parent.find? key.name with
      | none => some []
      | some (.tables earlier last) => some (earlier ++ [last])
      | some _ => none
    let filled ← (mk .header []).assignAll settings
    return parent.set key.name (.tables earlier filled)
  table.updateAt .route put key.path

end Table

mutual

def Node.toValue : Node → TomlValue
  | .value value => value
  | .table table => .table table.toEntries
  | .tables earlier last => .array (Table.toValues earlier ++ [.table last.toEntries])

def Table.toEntries : Table → List (String × TomlValue)
  | .mk _ entries => Table.entryValues entries

def Table.toValues : List Table → List TomlValue
  | [] => []
  | table :: rest => .table table.toEntries :: Table.toValues rest

def Table.entryValues : List (String × Node) → List (String × TomlValue)
  | [] => []
  | (name, node) :: rest => (name, node.toValue) :: Table.entryValues rest

end

end PyStatic.Toml
