import PyStatic.Syntax.Outline

/-!
Contract: flow graphs of function bodies.

A block holds a straight run of elements. A compound statement is an element of the block that
evaluates its header, and a definition is a single element: its body has a graph of its own.
-/

namespace PyStatic

abbrev BlockId := Nat

inductive BlockKind where
  | entry
  | exit
  | normal
  | loopHeader
  deriving DecidableEq, Repr

/-- A statement (of a compound one, the header), or a `case` clause. -/
inductive Element where
  | stmt (stmt : Stmt)
  | case (clause : MatchCase)

namespace Element

def id : Element → NodeId
  | stmt form => form.id
  | case clause => clause.id

def stmt? : Element → Option Stmt
  | stmt form => some form
  | case _ => none

def managersRange (mark : Mark) (items : List WithItem) : TextRange :=
  match items.head?, items.getLast? with
  | some first, some last => first.range.cover last.range
  | _, _ => mark.range.collapse

def evaluatedRange : Element → TextRange
  | stmt (.branch _ test _ _) => test.range
  | stmt (.whileLoop _ test _ _) => test.range
  | stmt (.forLoop _ target iter _ _ _) => target.range.cover iter.range
  | stmt (.withBlock mark items _ _) => managersRange mark items
  | stmt (.matchOn _ subject _) => subject.range
  | stmt form => form.range
  | case clause =>
    let range := clause.head.mark.range
    ⟨range.start, (clause.body.head?.map (·.range.start)).getD range.stop⟩

end Element

/-- A run of elements, the blocks it may lead to and those it may be entered from. -/
structure Block where
  kind : BlockKind
  elements : List Element := []
  successors : List BlockId := []
  predecessors : List BlockId := []

namespace Block

def addElement (block : Block) (element : Element) : Block :=
  { block with elements := block.elements ++ [element] }

def listOnce (ends : List BlockId) (id : BlockId) : List BlockId :=
  if ends.contains id then ends else ends ++ [id]

def addSuccessor (block : Block) (target : BlockId) : Block :=
  { block with successors := listOnce block.successors target }

def addPredecessor (block : Block) (source : BlockId) : Block :=
  { block with predecessors := listOnce block.predecessors source }

theorem mem_listOnce {ends : List BlockId} {id other : BlockId} :
    other ∈ listOnce ends id ↔ other ∈ ends ∨ other = id := by
  unfold listOnce
  split <;> simp_all

/-- A list of the block of that number, if there is such a block. -/
def listed {α : Type} (list : Block → List α) (blocks : Array Block) (id : BlockId) : List α :=
  (blocks[id]?.map list).getD []

section Listed

variable {α : Type} (list : Block → List α) (change : Block → Block) {blocks : Array Block}
  {place : BlockId}

theorem listed_of_size_le {id : BlockId} (outside : blocks.size ≤ id) :
    listed list blocks id = [] := by
  simp [listed, Array.getElem?_eq_none outside]

theorem listed_push {added : Block} (isEmpty : list added = []) (id : BlockId) :
    listed list (blocks.push added) id = listed list blocks id := by
  unfold listed
  rw [Array.getElem?_push]
  split
  · next isLast => simp [isLast, isEmpty]
  · rfl

theorem map_getElem?_modify {β : Type} (read : Block → β)
    (same : ∀ block, read (change block) = read block) (id : BlockId) :
    (blocks.modify place change)[id]?.map read = blocks[id]?.map read := by
  rw [Array.getElem?_modify]
  split
  · rw [Option.map_map, show read ∘ change = read from funext same]
  · rfl

theorem listed_modify_of_eq (same : ∀ block, list (change block) = list block) (id : BlockId) :
    listed list (blocks.modify place change) id = listed list blocks id := by
  unfold listed
  rw [map_getElem?_modify change list same]

variable {list change} in
theorem mem_listed_modify {added : α}
    (adds : ∀ block item, item ∈ list (change block) ↔ item ∈ list block ∨ item = added)
    (inRange : place < blocks.size) (id : BlockId) (item : α) :
    item ∈ listed list (blocks.modify place change) id ↔
      item ∈ listed list blocks id ∨ place = id ∧ item = added := by
  unfold listed
  rw [Array.getElem?_modify]
  by_cases isPlace : place = id
  · subst isPlace
    simp [inRange, adds]
  · simp [isPlace]

end Listed

end Block

abbrev FlowEdge := BlockId × BlockId

namespace FlowEdge

/-- The source is told of its new successor, the target of its new predecessor. -/
def drawnIn (edge : FlowEdge) (blocks : Array Block) : Array Block :=
  (blocks.modify edge.1 (·.addSuccessor edge.2)).modify edge.2 (·.addPredecessor edge.1)

variable (edge : FlowEdge) {blocks : Array Block}

theorem mem_successors_drawnIn (inRange : edge.1 < blocks.size) (block next : BlockId) :
    next ∈ Block.listed (·.successors) (edge.drawnIn blocks) block ↔
      next ∈ Block.listed (·.successors) blocks block ∨ edge.1 = block ∧ next = edge.2 := by
  unfold drawnIn
  rw [Block.listed_modify_of_eq _ (·.addPredecessor _) fun _ => rfl]
  exact Block.mem_listed_modify (fun _ _ => Block.mem_listOnce) inRange block next

theorem mem_predecessors_drawnIn (inRange : edge.2 < blocks.size) (block previous : BlockId) :
    previous ∈ Block.listed (·.predecessors) (edge.drawnIn blocks) block ↔
      previous ∈ Block.listed (·.predecessors) blocks block ∨
        edge.2 = block ∧ previous = edge.1 := by
  unfold drawnIn
  rw [Block.mem_listed_modify (fun _ _ => Block.mem_listOnce) (by simpa using inRange),
    Block.listed_modify_of_eq _ (·.addSuccessor _) fun _ => rfl]

end FlowEdge

/-- A block is among the successors of another just when that one is among its predecessors. -/
def Mirrored (blocks : Array Block) : Prop :=
  ∀ source target, target ∈ Block.listed (·.successors) blocks source ↔
    source ∈ Block.listed (·.predecessors) blocks target

namespace Mirrored

variable {blocks : Array Block} (mirrored : Mirrored blocks)

include mirrored

theorem push (kind : BlockKind) : Mirrored (blocks.push { kind }) := by
  intro source target
  rw [Block.listed_push _ rfl, Block.listed_push _ rfl]
  exact mirrored source target

theorem addElement (place : BlockId) (element : Element) :
    Mirrored (blocks.modify place (·.addElement element)) := by
  intro source target
  rw [Block.listed_modify_of_eq _ (·.addElement element) fun _ => rfl,
    Block.listed_modify_of_eq _ (·.addElement element) fun _ => rfl]
  exact mirrored source target

theorem drawnIn {edge : FlowEdge} (inRange : edge.1 < blocks.size ∧ edge.2 < blocks.size) :
    Mirrored (edge.drawnIn blocks) := by
  intro source target
  rw [edge.mem_successors_drawnIn inRange.1, edge.mem_predecessors_drawnIn inRange.2,
    mirrored source target, eq_comm (a := target), eq_comm (b := source), and_comm]

end Mirrored

/-- Each block keeps both its successors and its predecessors. -/
structure FlowGraph where
  blocks : Array Block
  mirrored : Mirrored blocks

namespace FlowGraph

def entry : BlockId := 0

def exit : BlockId := 1

def size (graph : FlowGraph) : Nat :=
  graph.blocks.size

def ids (graph : FlowGraph) : List BlockId :=
  List.range graph.size

def get? (graph : FlowGraph) (id : BlockId) : Option Block :=
  graph.blocks[id]?

def kind? (graph : FlowGraph) (id : BlockId) : Option BlockKind :=
  (graph.get? id).map (·.kind)

def elements (graph : FlowGraph) (id : BlockId) : List Element :=
  Block.listed (·.elements) graph.blocks id

def allElements (graph : FlowGraph) : List Element :=
  graph.ids.flatMap graph.elements

def successors (graph : FlowGraph) (id : BlockId) : List BlockId :=
  Block.listed (·.successors) graph.blocks id

def predecessors (graph : FlowGraph) (id : BlockId) : List BlockId :=
  Block.listed (·.predecessors) graph.blocks id

def hasBackEdge (graph : FlowGraph) (source target : BlockId) : Bool :=
  graph.kind? target == some .loopHeader && (graph.successors source).contains target

def addBlock (graph : FlowGraph) (kind : BlockKind) : FlowGraph :=
  ⟨graph.blocks.push { kind }, graph.mirrored.push kind⟩

def empty : FlowGraph :=
  let noBlocks : FlowGraph := ⟨#[], by simp [Mirrored, Block.listed]⟩
  (noBlocks.addBlock .entry).addBlock .exit

/-- An edge joins blocks of the graph. -/
def addEdge (graph : FlowGraph) (source target : BlockId) : FlowGraph :=
  if inRange : source < graph.size ∧ target < graph.size then
    ⟨FlowEdge.drawnIn (source, target) graph.blocks, graph.mirrored.drawnIn inRange⟩
  else graph

def addEdgeFrom (graph : FlowGraph) (source : Option BlockId) (target : BlockId) : FlowGraph :=
  match source with
  | some source => graph.addEdge source target
  | none => graph

def addElement (graph : FlowGraph) (id : BlockId) (element : Element) : FlowGraph :=
  ⟨graph.blocks.modify id (·.addElement element), graph.mirrored.addElement id element⟩

end FlowGraph

end PyStatic
