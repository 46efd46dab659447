import PyStatic.Binding.Classes
import PyStatic.Binding.Functions
import PyStatic.Binding.Reads
import PyStatic.Binding.Stmts

/-!
Contract: the names of a module, resolved.
-/

namespace PyStatic

structure Model where
  name : String
  scopes : ScopeTree
  table : SymbolTable
  nameSymbols : Std.ExtTreeMap NodeId SymbolId
  definitions : Std.ExtTreeMap NodeId SymbolId
  nodeScopes : Std.ExtTreeMap NodeId ScopeId
  unresolved : List Reference
  hasUnresolvedWildcard : Bool
  settings : Settings

namespace Model

def resolve (around : Surroundings) (survey : Survey) : Resolution :=
  let resolution := Resolution.ofBindings around survey
  let resolution := resolution.addReads around.settings survey
  let resolution := resolution.completeFunctions survey
  let resolution := resolution.completeClasses survey
  resolution.addInstanceAttributes survey

def ofModule (around : Surroundings) (module' : Module) : Model :=
  let survey := Survey.ofModule around module'
  let resolution := resolve around survey
  { name := moduleName around.package around.file
    scopes := survey.scopes
    table := resolution.table
    nameSymbols := resolution.nameSymbols
    definitions := resolution.definitions
    nodeScopes := survey.nodeScopes
    unresolved := resolution.unresolved
    hasUnresolvedWildcard := survey.hasUnresolvedWildcard
    settings := around.settings }

def symbolAt? (model : Model) (node : NodeId) : Option SymbolId :=
  model.nameSymbols[node]?

def definition? (model : Model) (node : NodeId) : Option SymbolId :=
  model.definitions[node]?

def scopeOf? (model : Model) (node : NodeId) : Option ScopeId :=
  model.nodeScopes[node]?

def ownedScope? (model : Model) (node : NodeId) : Option ScopeId :=
  model.scopes.ownedBy? node

def globals (model : Model) : List SymbolId :=
  model.table.inScope moduleScope

end Model

end PyStatic
