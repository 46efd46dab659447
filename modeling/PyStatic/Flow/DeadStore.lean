import PyStatic.Flow.Liveness

/-!
Contract: assignments whose value is never read.
-/

namespace PyStatic

structure DeadStore where
  statement : NodeId
  target : NodeId
  symbol : SymbolId
  deriving DecidableEq, Repr

namespace Element

def assignedNames : Element → List NodeId
  | stmt (.simple _ (.assign targets _)) =>
    targets.filterMap fun target => target.name?.map (·.id)
  | stmt (.simple _ (.annotatedAssign target _ (some _))) => (target.name?.map (·.id)).toList
  | stmt (.simple _ (.augmentedAssign target _ _)) => (target.name?.map (·.id)).toList
  | _ => []

def deadStores (element : Element) (model : Model) (locals : Locals) (live : SymbolSet) :
    List DeadStore :=
  element.assignedNames.filterMap fun target =>
    match (model.symbolAt? target).bind (locals[·]?) with
    | some symbol => if live.contains symbol then none else some ⟨element.id, target, symbol⟩
    | none => none

end Element

namespace FlowProblem

def deadStoresBackwards (problem : FlowProblem) (model : Model) :
    List Element → SymbolSet → List DeadStore
  | [], _ => []
  | element :: earlier, live =>
    element.deadStores model problem.locals live ++
      problem.deadStoresBackwards model earlier ((problem.access element).before live)

def deadStores (problem : FlowProblem) (model : Model) (liveness : Liveness) (block : BlockId) :
    List DeadStore :=
  (problem.deadStoresBackwards model (problem.graph.elements block).reverse
    (liveness.liveOut block)).reverse

end FlowProblem

end PyStatic
