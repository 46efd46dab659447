import PyStatic.Flow.Graph

/-!
Contract: the flow graph of a function.

A function with a `try` statement has no graph: an exception could leave any statement in it.
-/

namespace PyStatic

structure LoopTargets where
  header : BlockId
  after : BlockId
  deriving DecidableEq, Repr

/-- A graph, and the block in which control falls out, if it does. -/
structure Drawn where
  graph : FlowGraph
  ending : Option BlockId

namespace Drawn

def jumpTarget (loop : Option LoopTargets) : SimpleStmt → BlockId
  | .leaveLoop => (loop.map (·.after)).getD FlowGraph.exit
  | .nextRound => (loop.map (·.header)).getD FlowGraph.exit
  | _ => FlowGraph.exit

def meet (graph : FlowGraph) (thenEnding elseEnding : Option BlockId) : Drawn :=
  if thenEnding.isNone && elseEnding.isNone then ⟨graph, none⟩
  else
    let join := graph.size
    let graph := (graph.addBlock .normal).addEdgeFrom thenEnding join
    ⟨graph.addEdgeFrom elseEnding join, some join⟩

def fork (graph : FlowGraph) (source : BlockId) : FlowGraph :=
  (graph.addBlock .normal).addEdge source graph.size

/-- Makes the header, the block after the loop and the first one of its body. -/
def enterLoop (graph : FlowGraph) (current : BlockId) (element : Element) : FlowGraph :=
  let header := graph.size
  let graph := ((graph.addBlock .loopHeader).addEdge current header).addElement header element
  fork (graph.addBlock .normal) header

end Drawn

mutual

def Stmt.draw (loop : Option LoopTargets) : Stmt → BlockId → FlowGraph → Drawn
  | .simple mark form, current, graph =>
    let graph := graph.addElement current (.stmt (.simple mark form))
    if form.isJump then ⟨graph.addEdge current (Drawn.jumpTarget loop form), none⟩
    else ⟨graph, some current⟩
  | .branch mark test body orelse, current, graph =>
    let graph := graph.addElement current (.stmt (.branch mark test body orelse))
    let drawn := Stmt.drawAll loop body (some graph.size) (Drawn.fork graph current)
    if orelse.isEmpty then Drawn.meet drawn.graph drawn.ending (some current)
    else
      let other := Stmt.drawAll loop orelse (some drawn.graph.size)
        (Drawn.fork drawn.graph current)
      Drawn.meet other.graph drawn.ending other.ending
  | .forLoop mark target iter isAsync body orelse, current, graph =>
    let header := graph.size
    let after := header + 1
    let graph := Drawn.enterLoop graph current
      (.stmt (.forLoop mark target iter isAsync body orelse))
    let drawn := Stmt.drawAll (some ⟨header, after⟩) body (some (header + 2)) graph
    Stmt.drawElse loop orelse header after (drawn.graph.addEdgeFrom drawn.ending header)
  | .whileLoop mark test body orelse, current, graph =>
    let header := graph.size
    let after := header + 1
    let graph := Drawn.enterLoop graph current (.stmt (.whileLoop mark test body orelse))
    let drawn := Stmt.drawAll (some ⟨header, after⟩) body (some (header + 2)) graph
    Stmt.drawElse loop orelse header after (drawn.graph.addEdgeFrom drawn.ending header)
  | .withBlock mark items isAsync body, current, graph =>
    let graph := graph.addElement current (.stmt (.withBlock mark items isAsync body))
    Stmt.drawAll loop body (some current) graph
  | .matchOn mark subject cases, current, graph =>
    let graph := graph.addElement current (.stmt (.matchOn mark subject cases))
    let after := graph.size
    ⟨MatchCase.drawAll loop cases current after (Drawn.fork graph current), some after⟩
  | .functionDef head body, current, graph =>
    ⟨graph.addElement current (.stmt (.functionDef head body)), some current⟩
  | .classDef head body, current, graph =>
    ⟨graph.addElement current (.stmt (.classDef head body)), some current⟩
  | .tryBlock mark body handlers orelse finalbody, current, graph =>
    ⟨graph.addElement current (.stmt (.tryBlock mark body handlers orelse finalbody)),
      some current⟩

/-- What stands after a jump begins a new block that no edge leads to. -/
def Stmt.drawAll (loop : Option LoopTargets) : List Stmt → Option BlockId → FlowGraph → Drawn
  | [], current, graph => ⟨graph, current⟩
  | stmt :: rest, some current, graph =>
    let drawn := stmt.draw loop current graph
    Stmt.drawAll loop rest drawn.ending drawn.graph
  | stmt :: rest, none, graph =>
    let drawn := stmt.draw loop graph.size (graph.addBlock .normal)
    Stmt.drawAll loop rest drawn.ending drawn.graph

def Stmt.drawElse (loop : Option LoopTargets) : List Stmt → BlockId → BlockId → FlowGraph → Drawn
  | [], header, after, graph => ⟨graph.addEdge header after, some after⟩
  | stmt :: rest, header, after, graph =>
    let first := stmt.draw loop graph.size (Drawn.fork graph header)
    let drawn := Stmt.drawAll loop rest first.ending first.graph
    ⟨drawn.graph.addEdgeFrom drawn.ending after, some after⟩

def MatchCase.drawAll (loop : Option LoopTargets) :
    List MatchCase → BlockId → BlockId → FlowGraph → FlowGraph
  | [], _, _, graph => graph
  | ⟨head, body⟩ :: rest, current, after, graph =>
    let start := graph.size
    let graph := (Drawn.fork graph current).addElement start (.case ⟨head, body⟩)
    let drawn := Stmt.drawAll loop body (some start) graph
    MatchCase.drawAll loop rest current after (drawn.graph.addEdgeFrom drawn.ending after)

end

def Visited.isTry : Visited → Bool
  | .stmt (.tryBlock _ _ _ _ _) => true
  | _ => false

def Stmt.containTry (body : List Stmt) : Bool :=
  (Stmt.visitAll body).any (·.isTry)

def Stmt.graph (body : List Stmt) : FlowGraph :=
  let start := FlowGraph.empty.size
  let drawn := Stmt.drawAll none body (some start) (Drawn.fork .empty FlowGraph.entry)
  drawn.graph.addEdgeFrom drawn.ending FlowGraph.exit

def FunctionDef.flow? (function : FunctionDef) : Option FlowGraph :=
  if Stmt.containTry function.body then none else some (Stmt.graph function.body)

end PyStatic
