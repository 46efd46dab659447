import PyStatic.Binding.Model

/-!
Contract: indexing modules in a project.
-/

namespace PyStatic

namespace SymbolTable

def baseLink (table : SymbolTable) (base : SymbolId) : BaseLink :=
  match table.get? base with
  | none => .toOther "" none
  | some symbol =>
    match symbol.class?, symbol.fqn with
    | some _, some fqn => .toClass fqn
    | _, fqn => .toOther symbol.name fqn

def classExport (table : SymbolTable) (info : ClassInfo) : ClassExport where
  bases := info.superClasses.map table.baseLink
  hasUnresolvedBase := info.hasUnresolvedBase
  metaclass := info.metaclass
  hasDecorators := info.hasDecorators

def exportWithin (table : SymbolTable) :
    Nat → String → List SymbolId → SymbolId → List SymbolId × Export
  | 0, owner, seen, id => (seen, .other (table.nameOf id) (some owner))
  | depth + 1, owner, seen, id =>
    match table.get? id with
    | none => (seen, .other "" (some owner))
    | some symbol =>
      let name := symbol.name
      let fqn := symbol.fqn.getD (Dotted.join owner name)
      if seen.contains id then (seen, .other name (some fqn))
      else
        match symbol.data with
        | .other _ => (id :: seen, .other name (some fqn))
        | .function info => (id :: seen, .function name (some fqn) info.detached)
        | .ofClass info =>
          let (seen, members) :=
            Sequence.collect (table.exportWithin depth fqn) (id :: seen) info.members
          (seen, .ofClass name (some fqn) (table.classExport info) members)
        | .ambiguous alternatives =>
          let (seen, alternatives) :=
            Sequence.collect (table.exportWithin depth owner) (id :: seen) alternatives
          (seen, .ambiguous name (some fqn) alternatives)

def exportSymbol (table : SymbolTable) (owner : String) (seen : List SymbolId) (id : SymbolId) :
    List SymbolId × Export :=
  table.exportWithin (table.size + 1) owner seen id

end SymbolTable

def Model.exports (model : Model) : List Export :=
  let named := model.globals.filter fun id => !(model.table.nameOf id).isEmpty
  (Sequence.collect (model.table.exportSymbol model.name) [] named).2

structure ProjectFile where
  module' : Module
  package : String
  file : String

namespace ProjectFile

def name (source : ProjectFile) : String :=
  moduleName source.package source.file

/-- Nothing is exported with a wildcard import that cannot be followed. -/
def exports (source : ProjectFile) (project : Project) : List Export :=
  let model := Model.ofModule
    ⟨source.package, source.file, some project, project.settings⟩ source.module'
  if model.hasUnresolvedWildcard then [] else model.exports

end ProjectFile

namespace Project

def add (project : Project) (source : ProjectFile) : Project :=
  { project with modules := project.modules.insert source.name (source.exports project) }

def addAll (project : Project) (sources : List ProjectFile) : Project :=
  sources.foldl add (sources.foldl add project)

end Project

end PyStatic
