import PyStatic.Flow.Access

/-!
Contract: which local variables may be read later, at either end of each block.

Blocks wait in a queue, the last made first; a block whose answer changes sends its predecessors
back there.
-/

namespace PyStatic

structure FlowProblem where
  graph : FlowGraph
  locals : Locals
  usages : List LocalUsage

namespace FlowProblem

def ofGraph (model : Model) (function : NodeId) (graph : FlowGraph) : FlowProblem :=
  let locals := model.locals function
  ⟨graph, locals, model.localUsages locals⟩

def access (problem : FlowProblem) (element : Element) : Access :=
  element.access problem.usages

def beforeAll (problem : FlowProblem) (elements : List Element) (live : SymbolSet) : SymbolSet :=
  elements.foldr (fun element live => (problem.access element).before live) live

def readSymbols (problem : FlowProblem) : SymbolSet :=
  problem.graph.allElements.foldl (fun read element => read ∪ (problem.access element).reads) ∅

end FlowProblem

structure Liveness where
  before : Std.ExtTreeMap BlockId SymbolSet
  after : Std.ExtTreeMap BlockId SymbolSet

namespace Liveness

def empty : Liveness :=
  ⟨∅, ∅⟩

def liveIn (liveness : Liveness) (block : BlockId) : SymbolSet :=
  liveness.before.getD block ∅

def liveOut (liveness : Liveness) (block : BlockId) : SymbolSet :=
  liveness.after.getD block ∅

def joined (liveness : Liveness) (graph : FlowGraph) (block : BlockId) : SymbolSet :=
  (graph.successors block).foldl (fun live next => live ∪ liveness.liveIn next) ∅

def enqueue (queue blocks : List BlockId) : List BlockId :=
  blocks.foldl (fun queue block => if queue.contains block then queue else queue ++ [block]) queue

/-- The predecessors of a block wait again once its answer has changed. -/
def visit (problem : FlowProblem) (block : BlockId) (queue : List BlockId) (liveness : Liveness) :
    Liveness × List BlockId :=
  let live := liveness.joined problem.graph block
  let fresh := problem.beforeAll (problem.graph.elements block) live
  let after := liveness.after.insert block live
  if fresh == liveness.liveIn block then ({ liveness with after }, queue)
  else
    (⟨liveness.before.insert block fresh, after⟩,
      enqueue queue (problem.graph.predecessors block))

/-- The blocks that still wait after the last visit are returned. -/
def solve (problem : FlowProblem) : Nat → List BlockId → Liveness → Liveness × List BlockId
  | _, [], liveness => (liveness, [])
  | 0, queue, liveness => (liveness, queue)
  | visits + 1, block :: queue, liveness =>
    let (liveness, queue) := visit problem block queue liveness
    solve problem visits queue liveness

def ofProblem (problem : FlowProblem) (visits : Nat) : Liveness :=
  (solve problem visits problem.graph.ids.reverse .empty).1

end Liveness

end PyStatic
