import PyStatic.Flow.Graph
import Mathlib.Data.List.Basic

/-!
Contract: paths of a flow graph and the elements read along them.
-/

namespace PyStatic

namespace FlowGraph

/-! ## Adding to a graph

A block that does not exist has no elements, so adding an empty block changes no element list. -/

variable (graph : FlowGraph)

@[simp] theorem size_addBlock (kind : BlockKind) : (graph.addBlock kind).size = graph.size + 1 := by
  simp [size, addBlock]

@[simp] theorem size_addEdge (source target : BlockId) :
    (graph.addEdge source target).size = graph.size := by
  unfold addEdge
  split
  · simp [size, FlowEdge.drawnIn]
  · rfl

@[simp] theorem size_addEdgeFrom (source : Option BlockId) (target : BlockId) :
    (graph.addEdgeFrom source target).size = graph.size := by
  cases source with
  | none => rfl
  | some source => exact size_addEdge graph source target

@[simp] theorem size_addElement (block : BlockId) (element : Element) :
    (graph.addElement block element).size = graph.size := by
  simp [size, addElement]

@[simp] theorem elements_addBlock (kind : BlockKind) (block : BlockId) :
    (graph.addBlock kind).elements block = graph.elements block :=
  Block.listed_push _ rfl block

/-- An edge changes nothing of a block but its two lists. -/
theorem map_get?_addEdge {β : Type} (read : Block → β)
    (unchanged : ∀ block id, read (block.addSuccessor id) = read block ∧
      read (block.addPredecessor id) = read block) (source target id : BlockId) :
    ((graph.addEdge source target).get? id).map read = (graph.get? id).map read := by
  unfold addEdge
  split
  · unfold get? FlowEdge.drawnIn
    rw [Block.map_getElem?_modify _ read fun block => (unchanged block _).2,
      Block.map_getElem?_modify _ read fun block => (unchanged block _).1]
  · rfl

@[simp] theorem elements_addEdge (source target block : BlockId) :
    (graph.addEdge source target).elements block = graph.elements block :=
  congrArg (·.getD []) (map_get?_addEdge graph (·.elements) (fun _ _ => ⟨rfl, rfl⟩) ..)

@[simp] theorem elements_addEdgeFrom (source : Option BlockId) (target block : BlockId) :
    (graph.addEdgeFrom source target).elements block = graph.elements block := by
  cases source with
  | none => rfl
  | some source => exact elements_addEdge graph source target block

variable {graph} in
theorem elements_of_get? {id : BlockId} {block : Block} (found : graph.get? id = some block) :
    graph.elements id = block.elements := by
  unfold get? at found
  simp [elements, Block.listed, found]

theorem elements_of_size_le {block : Nat} (outside : graph.size ≤ block) :
    graph.elements block = [] :=
  Block.listed_of_size_le _ outside

theorem elements_addElement_self {block : Nat} (element : Element) (exists' : block < graph.size) :
    (graph.addElement block element).elements block = graph.elements block ++ [element] := by
  have inRange : block < graph.blocks.size := exists'
  simp only [elements, Block.listed, addElement, Array.getElem?_modify, ↓reduceIte]
  simp [inRange, Block.addElement]

theorem elements_addElement_of_ne {added block : Nat} (element : Element)
    (different : block ≠ added) :
    (graph.addElement added element).elements block = graph.elements block := by
  simp [elements, Block.listed, addElement, Array.getElem?_modify, different.symm]

/-! ## Edges

The edges are read off the predecessors of each block; the successors say the same of them. -/

def edges (graph : FlowGraph) : List FlowEdge :=
  graph.ids.flatMap fun target => (graph.predecessors target).map fun source => (source, target)

@[simp] theorem mem_predecessors (block previous : BlockId) :
    previous ∈ graph.predecessors block ↔ (previous, block) ∈ graph.edges := by
  have inRange (isPrevious : previous ∈ graph.predecessors block) : block < graph.size := by
    by_contra outside
    rw [predecessors, Block.listed_of_size_le _ (Nat.le_of_not_lt outside)] at isPrevious
    exact absurd isPrevious List.not_mem_nil
  simpa [edges, ids] using inRange

@[simp] theorem mem_successors (block next : BlockId) :
    next ∈ graph.successors block ↔ (block, next) ∈ graph.edges :=
  (graph.mirrored block next).trans (mem_predecessors graph next block)

variable {graph} in
theorem lt_size_of_edge {source target : Nat} (edge : (source, target) ∈ graph.edges) :
    source < graph.size ∧ target < graph.size := by
  constructor
  · by_contra outside
    rw [← mem_successors, successors, Block.listed_of_size_le _ (Nat.le_of_not_lt outside)] at edge
    exact absurd edge List.not_mem_nil
  · by_contra outside
    rw [← mem_predecessors, predecessors,
      Block.listed_of_size_le _ (Nat.le_of_not_lt outside)] at edge
    exact absurd edge List.not_mem_nil

@[simp] theorem successors_addBlock (kind : BlockKind) :
    (graph.addBlock kind).successors = graph.successors :=
  funext (Block.listed_push _ rfl)

@[simp] theorem predecessors_addBlock (kind : BlockKind) :
    (graph.addBlock kind).predecessors = graph.predecessors :=
  funext (Block.listed_push _ rfl)

@[simp] theorem successors_addElement (block : BlockId) (element : Element) :
    (graph.addElement block element).successors = graph.successors :=
  funext (Block.listed_modify_of_eq _ _ fun _ => rfl)

@[simp] theorem predecessors_addElement (block : BlockId) (element : Element) :
    (graph.addElement block element).predecessors = graph.predecessors :=
  funext (Block.listed_modify_of_eq _ _ fun _ => rfl)

@[simp] theorem edges_addBlock (kind : BlockKind) : (graph.addBlock kind).edges = graph.edges := by
  have isLast : graph.predecessors graph.size = [] := Block.listed_of_size_le _ (Nat.le_refl _)
  simp [edges, ids, List.range_succ, isLast]

@[simp] theorem edges_addElement (block : BlockId) (element : Element) :
    (graph.addElement block element).edges = graph.edges := by
  simp [edges, ids]

@[simp] theorem mem_edges_addEdge (source target : BlockId) (edge : FlowEdge) :
    edge ∈ (graph.addEdge source target).edges ↔
      edge ∈ graph.edges ∨ (source < graph.size ∧ target < graph.size) ∧
        edge = (source, target) := by
  obtain ⟨block, next⟩ := edge
  rw [← mem_successors, ← mem_successors, addEdge]
  split
  · next inRange =>
    rw [successors, FlowEdge.mem_successors_drawnIn _ inRange.1]
    simp [successors, inRange, eq_comm]
  · next outside => simp [outside]

theorem mem_edges_addEdgeFrom {source : Option Nat} {target : Nat}
    (sourceExists : ∀ block : Nat, source = some block → block < graph.size)
    (targetExists : target < graph.size) (edge : FlowEdge) :
    edge ∈ (graph.addEdgeFrom source target).edges ↔
      edge ∈ graph.edges ∨ (source = some edge.1 ∧ edge.2 = target) := by
  cases source with
  | none => simp [addEdgeFrom]
  | some =>
    rw [addEdgeFrom, mem_edges_addEdge, Prod.ext_iff, Option.some.injEq, eq_comm (a := edge.1)]
    simp [sourceExists _ rfl, targetExists]

/-- The blocks that are passed in turn, from the first to the last, both included. -/
inductive Path (graph : FlowGraph) : BlockId → List BlockId → BlockId → Prop where
  | here (block : BlockId) : Path graph block [block] block
  | step {block next last : BlockId} {blocks : List BlockId}
      (edge : next ∈ graph.successors block)
      (rest : Path graph next blocks last) : Path graph block (block :: blocks) last

def elementsAlong (graph : FlowGraph) (blocks : List BlockId) : List Element :=
  blocks.flatMap graph.elements

/-- What the elements of these blocks show of an execution. -/
def traceAlong (graph : FlowGraph) (blocks : List BlockId) : List NodeId :=
  (graph.elementsAlong blocks).map (·.id)

end FlowGraph

end PyStatic
