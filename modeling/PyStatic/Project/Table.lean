import PyStatic.Project.Export
import PyStatic.Settings.Basic
import PyStatic.Text.Dotted
import Std.Data.ExtTreeMap

/-!
Contract: the modules of a project and what they export.
-/

namespace PyStatic

structure Project where
  modules : Std.ExtTreeMap String (List Export)
  settings : Settings

namespace Project

def empty (settings : Settings) : Project :=
  ⟨∅, settings⟩

def exports? (project : Project) (module' : String) : Option (List Export) :=
  project.modules[module']?

def hasModule (project : Project) (module' : String) : Bool :=
  (project.exports? module').isSome

def moduleNames (project : Project) : List String :=
  project.modules.keys

def hasPackage (project : Project) (name : String) : Bool :=
  project.hasModule name || project.moduleNames.any (Dotted.isBelow · name)

def remove (project : Project) (module' : String) : Project :=
  { project with modules := project.modules.erase module' }

def descend (symbol? : Option Export) (path : List String) : Option Export :=
  path.foldl (fun symbol? part => symbol?.bind (·.member? part)) symbol?

def symbolIn? (project : Project) (module' : List String) (path : List String) : Option Export :=
  match path with
  | [] => none
  | first :: rest =>
    (project.exports? (Dotted.ofParts module')).bind fun exports =>
      descend (exports.find? (·.name == first)) rest

def cuts (parts : List String) : List (List String × List String) :=
  ((List.range parts.length).tail.map fun length => (parts.take length, parts.drop length)).reverse

/-- Of several modules that the name may mean, the longest wins. -/
def symbol? (project : Project) (fqn : String) : Option Export :=
  (cuts (Dotted.parts fqn)).findSome? fun cut => project.symbolIn? cut.1 cut.2

def weight (project : Project) : Nat :=
  project.modules.values.foldr (fun exports total => Export.weightOfAll exports + total) 0

end Project

end PyStatic
