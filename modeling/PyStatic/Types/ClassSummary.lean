import PyStatic.Builtin.Namespace
import PyStatic.Symbol.Hierarchy

/-!
Contract: what types remember of a class.
-/

namespace PyStatic

/-- A class with its hierarchy, apart from any symbol table. -/
structure ClassSummary where
  name : String
  fqn : String
  ancestors : List String
  members : List String
  hasUnresolvedHierarchy : Bool
  deriving DecidableEq, Repr

namespace ClassSummary

def same (left right : ClassSummary) : Bool :=
  left.name == right.name && left.fqn == right.fqn

def builtin? (name : String) : Option ClassSummary :=
  (Builtin.class? name).map fun entry =>
    ⟨entry.name, entry.name, Builtin.ancestors name, Builtin.members name, false⟩

def ofSymbol? (table : SymbolTable) (id : SymbolId) : Option ClassSummary :=
  match table.get? id with
  | none => none
  | some symbol =>
    if symbol.kind = .ofClass then
      let hierarchy := table.hierarchy id
      let members := hierarchy.flatMap fun base => (table.members base).map table.nameOf
      some ⟨symbol.name, symbol.fqn.getD symbol.name, hierarchy.filterMap table.fqnOf?,
        members.eraseDups, table.hasUnresolvedHierarchy id⟩
    else none

def isOrExtends (summary : ClassSummary) (fqn : String) : Bool :=
  summary.ancestors.contains fqn

def declaresMember (summary : ClassSummary) (name : String) : Bool :=
  summary.members.contains name

def canHaveMember (summary : ClassSummary) (name : String) : Bool :=
  summary.hasUnresolvedHierarchy || summary.declaresMember name

def overlaps (left right : ClassSummary) : Bool :=
  left.hasUnresolvedHierarchy || right.hasUnresolvedHierarchy || left.isOrExtends right.fqn ||
    right.isOrExtends left.fqn

end ClassSummary

end PyStatic
