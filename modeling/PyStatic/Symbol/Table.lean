import PyStatic.Symbol.Basic
import Std.Data.ExtTreeMap

/-!
Contract: the symbols of a module and the names that its scopes bind to them.

Symbols are only ever added, and a symbol keeps its place.
-/

namespace PyStatic

/-- A symbol is named by its place. What is bound is kept for each scope. -/
structure SymbolTable where
  symbols : Array Symbol
  bound : Std.ExtTreeMap ScopeId (Std.ExtTreeMap String SymbolId)

namespace SymbolTable

def empty : SymbolTable :=
  ⟨#[], ∅⟩

def size (table : SymbolTable) : Nat :=
  table.symbols.size

def ids (table : SymbolTable) : List SymbolId :=
  List.range table.size

def get? (table : SymbolTable) (id : SymbolId) : Option Symbol :=
  table.symbols[id]?

def push (table : SymbolTable) (symbol : Symbol) : SymbolTable :=
  { table with symbols := table.symbols.push symbol }

def modify (table : SymbolTable) (id : SymbolId) (change : Symbol → Symbol) : SymbolTable :=
  { table with symbols := table.symbols.modify id change }

def setData (table : SymbolTable) (id : SymbolId) (data : SymbolData) : SymbolTable :=
  table.modify id fun symbol => { symbol with data }

def setScope (table : SymbolTable) (id : SymbolId) (scope : ScopeId) : SymbolTable :=
  table.modify id fun symbol => { symbol with scope := some scope }

def setName (table : SymbolTable) (id : SymbolId) (name : String) : SymbolTable :=
  table.modify id fun symbol => { symbol with name }

def addUsage (table : SymbolTable) (id : SymbolId) (usage : Usage) : SymbolTable :=
  table.modify id fun symbol => { symbol with usages := symbol.usages ++ [usage] }

def names (table : SymbolTable) (scope : ScopeId) : Std.ExtTreeMap String SymbolId :=
  table.bound.getD scope ∅

def bind (table : SymbolTable) (scope : ScopeId) (name : String) (id : SymbolId) : SymbolTable :=
  { table with bound := table.bound.insert scope ((table.names scope).insert name id) }

def lookup? (table : SymbolTable) (scope : ScopeId) (name : String) : Option SymbolId :=
  (table.names scope)[name]?

def inScope (table : SymbolTable) (scope : ScopeId) : List SymbolId :=
  ((table.names scope).toList.map (·.2)).mergeSort (· ≤ ·)

def nameOf (table : SymbolTable) (id : SymbolId) : String :=
  ((table.get? id).map (·.name)).getD ""

def fqnOf? (table : SymbolTable) (id : SymbolId) : Option String :=
  (table.get? id).bind (·.fqn)

def class? (table : SymbolTable) (id : SymbolId) : Option ClassInfo :=
  (table.get? id).bind (·.class?)

def superClasses (table : SymbolTable) (id : SymbolId) : List SymbolId :=
  ((table.class? id).map (·.superClasses)).getD []

def members (table : SymbolTable) (id : SymbolId) : List SymbolId :=
  ((table.class? id).map (·.members)).getD []

def alternatives (table : SymbolTable) (id : SymbolId) : List SymbolId :=
  ((table.get? id).map (·.alternatives)).getD []

def children (table : SymbolTable) (id : SymbolId) : List SymbolId :=
  ((table.get? id).map (·.children)).getD []

def named? (table : SymbolTable) (ids : List SymbolId) (name : String) : Option SymbolId :=
  ids.find? fun id => (table.get? id).any (·.name == name)

/-- Usages of an ambiguous symbol are put on its last alternative. -/
def usageTarget (table : SymbolTable) (id : SymbolId) : SymbolId :=
  (table.alternatives id).getLast?.getD id

end SymbolTable

abbrev Registry := Std.ExtTreeMap String SymbolId

/-- A table with the symbols that a fully qualified name already stands for. -/
structure SymbolPool where
  table : SymbolTable
  registry : Registry

namespace SymbolPool

def push (pool : SymbolPool) (symbol : Symbol) : SymbolPool × SymbolId :=
  ({ pool with table := pool.table.push symbol }, pool.table.size)

def register (pool : SymbolPool) (fqn : String) (id : SymbolId) : SymbolPool :=
  { pool with registry := pool.registry.insert fqn id }

/-- The first symbol that is registered under a name keeps it. -/
def registerFirst (pool : SymbolPool) (fqn : String) (id : SymbolId) : SymbolPool :=
  { pool with registry := pool.registry.insertIfNew fqn id }

def setData (pool : SymbolPool) (id : SymbolId) (data : SymbolData) : SymbolPool :=
  { pool with table := pool.table.setData id data }

end SymbolPool

end PyStatic
