import PyStatic.Binding.Resolution
import PyStatic.Binding.Survey

/-!
Contract: what is known of the classes that a module defines.
-/

namespace PyStatic

namespace Resolution

def baseSymbol? (resolution : Resolution) : Expr → Option SymbolId
  | .name identifier => resolution.nameSymbols[identifier.id]?
  | .member _ _ attr => resolution.nameSymbols[attr.id]?
  | .subscript _ value _ => resolution.baseSymbol? value
  | _ => none

def isClass (resolution : Resolution) : Option SymbolId → Bool
  | some id => (resolution.table.get? id).any (·.kind == .ofClass)
  | none => false

def metaclass? (resolution : Resolution) (arguments : List Argument) : Option String :=
  let metaclasses := arguments.filter fun argument => argument.keyword.any (·.text == "metaclass")
  metaclasses.getLast?.bind fun argument => resolution.fqnOf? argument.value

def classInfo (resolution : Resolution) (head : ClassHead) (scope : ScopeId) : ClassInfo :=
  let positional := head.arguments.filter (·.keyword.isNone)
  let bases := positional.map fun argument => resolution.baseSymbol? argument.value
  { superClasses := bases.filterMap (fun base => base)
    members := resolution.table.inScope scope
    hasUnresolvedBase := !bases.all resolution.isClass
    metaclass := resolution.metaclass? head.arguments
    hasDecorators := !head.decorators.isEmpty
    definition := some head.mark.id }

def completeClass (resolution : Resolution) (site : ClassSite) : Resolution :=
  match resolution.definitions[site.head.mark.id]? with
  | none => resolution
  | some id => resolution.setData id (.ofClass (resolution.classInfo site.head site.body))

def completeClasses (survey : Survey) (resolution : Resolution) : Resolution :=
  survey.classes.foldl completeClass resolution

def classOfBody? (survey : Survey) (resolution : Resolution) (scope : ScopeId) :
    Option SymbolId :=
  (survey.classes.find? (·.body == scope)).bind fun site =>
    resolution.definitions[site.head.mark.id]?

def addMember (classId member : SymbolId) (resolution : Resolution) : Resolution :=
  match resolution.table.class? classId with
  | some info =>
    resolution.setData classId (.ofClass { info with members := info.members ++ [member] })
  | none => resolution

def addInstanceAttribute (survey : Survey) (resolution : Resolution)
    (assigned : InstanceAttribute) : Resolution :=
  match resolution.classOfBody? survey assigned.classScope with
  | none => resolution
  | some classId =>
    let attr := assigned.attr
    let usage : Usage := ⟨attr.id, attr.range, .assignmentTarget⟩
    match resolution.table.named? (resolution.table.members classId) attr.text with
    | some member => resolution.recordUsage member usage
    | none =>
      let fqn := (resolution.table.fqnOf? classId).map (Dotted.join · attr.text)
      let symbol := Symbol.fresh attr.text fqn (.other []) (some assigned.classScope)
      let (resolution, member) := resolution.push symbol
      (resolution.addMember classId member).recordUsage member usage

def addInstanceAttributes (survey : Survey) (resolution : Resolution) : Resolution :=
  survey.instanceAttributes.foldl (addInstanceAttribute survey) resolution

end Resolution

end PyStatic
