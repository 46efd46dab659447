import PyStatic.Binding.Imports
import PyStatic.Binding.Resolution
import PyStatic.Project.Instance

/-!
Contract: the symbols that a module's bindings make.

Every definition has a symbol of its own. All other bindings of a name share one. A name with
several symbols stands for an ambiguous one.
-/

namespace PyStatic

namespace SymbolTable

def addChild (table : SymbolTable) (parent child : SymbolId) : SymbolTable :=
  table.modify parent fun symbol =>
    match symbol.data with
    | .other children => { symbol with data := .other (children ++ [child]) }
    | _ => symbol

def pushModule (table : SymbolTable) (project : Option Project) (name fqn : String)
    (scope : Option ScopeId) : SymbolTable × SymbolId :=
  let (pool, children) := match project with
    | some project => project.instancesOfModule ⟨table, ∅⟩ fqn
    | none => (⟨table, ∅⟩, [])
  (pool.table.push (.fresh name (some fqn) (.other children) scope), pool.table.size)

def attachSubmodules (project : Project) :
    List String → SymbolId → String → SymbolTable → SymbolTable
  | [], _, _, table => table
  | part :: rest, parent, qualifier, table =>
    let fqn := Dotted.join qualifier part
    if !project.hasPackage fqn then table
    else
      match table.named? (table.children parent) part with
      | some child => attachSubmodules project rest child fqn table
      | none =>
        if (table.get? parent).any (·.kind == .other) then
          let (table, child) := table.pushModule (some project) part fqn none
          attachSubmodules project rest child fqn (table.addChild parent child)
        else table

def rename (table : SymbolTable) (id : SymbolId) (name : String) : SymbolTable :=
  ((table.alternatives id).foldl (fun table id => table.setName id name) table).setName id name

def pushImported (table : SymbolTable) (project : Option Project) (scope : ScopeId)
    (name fqn : String) : SymbolTable × SymbolId :=
  match project.bind (·.instance? ⟨table, ∅⟩ fqn) with
  | some (pool, id) => ((pool.table.rename id name).setScope id scope, id)
  | none => (table.push (.fresh name (some fqn) (.other []) (some scope)), table.size)

end SymbolTable

/-- The symbols of one name so far, and the one that plain bindings share. -/
structure Merging where
  resolution : Resolution
  alternatives : List SymbolId
  shared : Option SymbolId

namespace Merging

def common? (merging : Merging) : BindingOrigin → Option SymbolId
  | .functionDef _ | .classDef _ => none
  | .importedName _ | .importedModule _ _ => merging.shared <|> merging.alternatives.getLast?
  | .plain => merging.shared

def extend (around : Surroundings) (id : SymbolId) (origin : BindingOrigin) (table : SymbolTable) :
    SymbolTable :=
  match origin, around.project with
  | .importedModule name submodules, some project =>
    table.attachSubmodules project submodules id name
  | _, _ => table

def pushSymbol (around : Surroundings) (scope : ScopeId) (path name : String)
    (table : SymbolTable) : BindingOrigin → SymbolTable × SymbolId
  | .functionDef node =>
    (table.push (.fresh name (some (Dotted.join path name))
      (.function { FunctionInfo.blank with definition := some node }) (some scope)), table.size)
  | .classDef node =>
    (table.push (.fresh name (some (Dotted.join path name))
      (.ofClass { ClassInfo.blank with definition := some node }) (some scope)), table.size)
  | .importedName fqn => table.pushImported around.project scope name fqn
  | .importedModule fqn submodules =>
    let (table, id) := table.pushModule around.project name fqn (some scope)
    (extend around id (.importedModule fqn submodules) table, id)
  | .plain => (table.push (.fresh name none (.other []) (some scope)), table.size)

def define (id : SymbolId) (origin : BindingOrigin) (resolution : Resolution) : Resolution :=
  match origin with
  | .functionDef node | .classDef node =>
    { resolution with definitions := resolution.definitions.insert node id }
  | _ => resolution

def sharedAfter (merging : Merging) (id : SymbolId) : BindingOrigin → Option SymbolId
  | .functionDef _ | .classDef _ => merging.shared
  | _ => merging.shared <|> some id

def add (around : Surroundings) (scope : ScopeId) (path name : String) (merging : Merging)
    (binding : Binding) : Merging :=
  let resolution := merging.resolution
  match merging.common? binding.origin with
  | some id =>
    let table := extend around id binding.origin resolution.table
    { merging with
      resolution := Resolution.recordUsage id binding.toUsage { resolution with table } }
  | none =>
    let (table, id) := pushSymbol around scope path name resolution.table binding.origin
    let resolution := define id binding.origin { resolution with table }
    ⟨resolution.recordUsage id binding.toUsage, merging.alternatives ++ [id],
      merging.sharedAfter id binding.origin⟩

/-- A name with several symbols is bound to an ambiguous one. -/
def finish (merging : Merging) : Resolution × Option SymbolId :=
  match merging.alternatives with
  | [] => (merging.resolution, none)
  | [id] => (merging.resolution, some id)
  | ids =>
    let (table, id) := merging.resolution.table.unite ids
    ({ merging.resolution with table }, id)

end Merging

namespace Resolution

def bindName (around : Surroundings) (tree : ScopeTree) (scope : ScopeId)
    (bindings : List Binding) (resolution : Resolution) (name : String) : Resolution :=
  let own := bindings.filter (·.name == name)
  let merging := own.foldl (Merging.add around scope (tree.pathOf scope) name)
    ⟨resolution, [], none⟩
  match merging.finish with
  | (resolution, some id) =>
    { resolution with table := (resolution.table.setScope id scope).bind scope name id }
  | (resolution, none) => resolution

def bindScope (around : Surroundings) (survey : Survey) (resolution : Resolution)
    (scope : ScopeId) : Resolution :=
  let bindings := survey.bindings.filter (·.target == scope)
  (bindings.map (·.name)).eraseDups.foldl (bindName around survey.scopes scope bindings) resolution

def ofBindings (around : Surroundings) (survey : Survey) : Resolution :=
  survey.scopes.ids.foldl (bindScope around survey) .empty

end Resolution

end PyStatic
