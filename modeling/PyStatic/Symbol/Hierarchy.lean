import PyStatic.Graph.BreadthFirst
import PyStatic.Symbol.Table

/-!
Contract: walks along the superclasses of a class.

Superclass links may run in circles and may lead to symbols that are no classes; each symbol is met
once.
-/

namespace PyStatic.SymbolTable

def hierarchy (table : SymbolTable) (id : SymbolId) : List SymbolId :=
  BreadthFirst.walk table.superClasses table.size id

def hasUnresolvedHierarchy (table : SymbolTable) (id : SymbolId) : Bool :=
  (table.hierarchy id).any fun base =>
    match table.class? base with
    | some info => info.hasUnresolvedBase
    | none => true

def member? (table : SymbolTable) (id : SymbolId) (name : String) : Option SymbolId :=
  (table.hierarchy id).findSome? fun base => table.named? (table.members base) name

def isOrExtends (table : SymbolTable) (id : SymbolId) (fqn : String) : Bool :=
  (table.hierarchy id).any fun base => table.fqnOf? base == some fqn

end PyStatic.SymbolTable
