import PyStatic.Symbol.Table
import PyStatic.Text.Dotted

/-!
Contract: what is known of the names of a module while they are resolved.
-/

namespace PyStatic

/-- The symbols made so far, and what nodes of names and definitions stand for. -/
structure Resolution where
  table : SymbolTable
  nameSymbols : Std.ExtTreeMap NodeId SymbolId
  definitions : Std.ExtTreeMap NodeId SymbolId
  builtins : Registry
  unresolved : List Reference

namespace Resolution

def empty : Resolution :=
  ⟨.empty, ∅, ∅, ∅, []⟩

/-- The last alternative of an ambiguous symbol carries its usages. -/
def recordUsage (id : SymbolId) (usage : Usage) (resolution : Resolution) : Resolution :=
  let target := resolution.table.usageTarget id
  { resolution with
    table := resolution.table.addUsage target usage
    nameSymbols := resolution.nameSymbols.insert usage.node target }

def push (symbol : Symbol) (resolution : Resolution) : Resolution × SymbolId :=
  ({ resolution with table := resolution.table.push symbol }, resolution.table.size)

def setData (id : SymbolId) (data : SymbolData) (resolution : Resolution) : Resolution :=
  { resolution with table := resolution.table.setData id data }

def symbolOf? (resolution : Resolution) : Expr → Option SymbolId
  | .name identifier => resolution.nameSymbols[identifier.id]?
  | .member _ _ attr => resolution.nameSymbols[attr.id]?
  | _ => none

def fqnOf? (resolution : Resolution) : Expr → Option String
  | .name identifier => resolution.nameSymbols[identifier.id]?.bind resolution.table.fqnOf?
  | .member _ value attr =>
    match resolution.nameSymbols[attr.id]? with
    | some id => resolution.table.fqnOf? id
    | none => (resolution.fqnOf? value).map (Dotted.join · attr.text)
  | _ => none

end Resolution

end PyStatic
