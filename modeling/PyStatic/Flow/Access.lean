import PyStatic.Binding.Model
import PyStatic.Flow.Graph
import Std.Data.ExtTreeSet

/-!
Contract: the local variables that each element of a flow graph reads and writes.

What an element reads and writes is told by the usages inside its evaluated range. A nested
definition reads all it mentions, since it may run at any later point, and writes its own name.
-/

namespace PyStatic

abbrev SymbolSet := Std.ExtTreeSet SymbolId

structure Access where
  reads : SymbolSet
  writes : SymbolSet

namespace Access

def empty : Access :=
  ⟨∅, ∅⟩

def read (symbol : SymbolId) (access : Access) : Access :=
  { access with reads := access.reads.insert symbol }

def write (symbol : SymbolId) (access : Access) : Access :=
  { access with writes := access.writes.insert symbol }

def before (access : Access) (live : SymbolSet) : SymbolSet :=
  live.filter (fun symbol => !access.writes.contains symbol) ∪ access.reads

end Access

/-- The local variables of a function; alternatives stand for the variable. -/
abbrev Locals := Std.ExtTreeMap SymbolId SymbolId

structure LocalUsage where
  symbol : SymbolId
  usage : Usage

namespace Model

def addLocal (model : Model) (locals : Locals) (symbol : SymbolId) : Locals :=
  (model.table.alternatives symbol).foldl (fun locals alternative =>
    locals.insert alternative symbol) (locals.insert symbol symbol)

def locals (model : Model) (function : NodeId) : Locals :=
  match model.ownedScope? function with
  | none => ∅
  | some scope => (model.table.inScope scope).foldl model.addLocal ∅

def localUsages (model : Model) (locals : Locals) : List LocalUsage :=
  locals.toList.flatMap fun (symbol, local') =>
    ((model.table.get? symbol).map (·.usages)).getD [] |>.map (⟨local', ·⟩)

end Model

namespace Element

def definedName? : Element → Option NodeId
  | stmt (.functionDef head _) => some head.name.id
  | stmt (.classDef head _) => some head.name.id
  | _ => none

def deletedNames : Element → List NodeId
  | stmt (.simple _ (.delete targets)) => targets.filterMap fun target => target.name?.map (·.id)
  | _ => []

def accessInDefinition (name : NodeId) (used : LocalUsage) (access : Access) : Access :=
  if used.usage.node = name then access.write used.symbol
  else if used.usage.kind = .globalDeclaration then access
  else access.read used.symbol

/-- The target of an assignment expression counts as written only. -/
def accessDirectly (bound : List NodeId) (used : LocalUsage) (access : Access) : Access :=
  match used.usage.kind with
  | .other => if bound.contains used.usage.node then access else access.read used.symbol
  | .compoundAssignmentTarget => (access.read used.symbol).write used.symbol
  | .globalDeclaration => access
  | _ => access.write used.symbol

def addUsage (element : Element) (bound : List NodeId) (access : Access) (used : LocalUsage) :
    Access :=
  if element.deletedNames.contains used.usage.node then access.write used.symbol
  else
    match element.definedName? with
    | some name => accessInDefinition name used access
    | none => accessDirectly bound used access

/-- The usages inside the evaluated range of the element. -/
def counted (element : Element) (usages : List LocalUsage) : List LocalUsage :=
  usages.filter (·.usage.range.within element.evaluatedRange)

/-- The nodes that the element assigns to. -/
def boundNodes (element : Element) (usages : List LocalUsage) : List NodeId :=
  ((element.counted usages).filter (·.usage.kind == .assignmentTarget)).map (·.usage.node)

def access (element : Element) (usages : List LocalUsage) : Access :=
  (element.counted usages).foldl (element.addUsage (element.boundNodes usages)) .empty

end Element

end PyStatic
