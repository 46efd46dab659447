import PyStatic.Binding.Survey
import PyStatic.Project.Table

/-!
Contract: what imports bind.
-/

namespace PyStatic

structure Surroundings where
  package : String
  file : String
  project : Option Project := none
  settings : Settings := {}

/-- Relative imports take off one part of the package for each dot after the first. -/
def importedModule? (package : String) (level : Nat) (target : Option String) : Option String :=
  if level = 0 then target
  else
    let parts := (Dotted.parts package).filter (!·.isEmpty)
    let climbs := level - 1
    if parts.length < climbs then none
    else
      let kept := parts.take (parts.length - climbs)
      match target with
      | some target => some (Dotted.join (Dotted.ofParts kept) target)
      | none => if kept.isEmpty then none else some (Dotted.ofParts kept)

def FromImport.module? (imported : FromImport) (package : String) : Option String :=
  importedModule? package imported.level (imported.target.map (·.text))

def importOrigin (project : Option Project) (fqn : String) : BindingOrigin :=
  match project with
  | some project =>
    if (project.symbol? fqn).isNone && project.hasModule fqn then .importedModule fqn []
    else .importedName fqn
  | none => .importedName fqn

namespace Survey

def addImported (scope : ScopeId) (origin : String → BindingOrigin) (aliases : List Alias)
    (survey : Survey) : Survey :=
  aliases.foldl (fun survey imported =>
    match imported.boundName? with
    | some bound => survey.addBinding scope .imported (origin imported.name.text) bound
    | none => survey) survey

def addPlainImport (scope : ScopeId) (survey : Survey) (imported : Alias) : Survey :=
  match imported.asName, imported.name.parts with
  | some bound, _ =>
    survey.addBinding scope .imported (.importedModule imported.name.text []) bound
  | none, first :: rest =>
    survey.addBinding scope .imported (.importedModule first.text (rest.map (·.text))) first
  | none, [] => survey

def addWildcard (scope : ScopeId) (mark : Mark) (module' : String) (exports : List Export)
    (survey : Survey) : Survey :=
  let names := (exports.map (·.name)).filter (!·.isEmpty)
  let bindings : List Binding := names.map fun name =>
    ⟨scope, name, mark.id, mark.range, .imported, .importedName (Dotted.join module' name)⟩
  { survey with bindings := survey.bindings ++ bindings }

def markWildcard (survey : Survey) : Survey :=
  { survey with hasUnresolvedWildcard := true }

def addFromImport (around : Surroundings) (scope : ScopeId) (mark : Mark) (imported : FromImport)
    (survey : Survey) : Survey :=
  match imported.module? around.package with
  | none =>
    let survey := if imported.isWildcard then survey.markWildcard else survey
    survey.addImported scope .importedName imported.names
  | some module' =>
    if imported.isWildcard then
      match around.project.bind (·.exports? module') with
      | some exports => survey.addWildcard scope mark module' exports
      | none => survey.markWildcard
    else
      survey.addImported scope
        (fun name => importOrigin around.project (Dotted.join module' name)) imported.names

end Survey

end PyStatic
