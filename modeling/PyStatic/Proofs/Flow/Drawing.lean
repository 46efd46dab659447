import PyStatic.Flow.Draw
import PyStatic.Proofs.Flow.Path

/-!
Contract: what is read in a graph that is still being drawn.

What is read at the end of a block that has no edges yet is given from outside. An edge is then the
same as what is read at its target, given at its source.
-/

namespace PyStatic

abbrev Onward := BlockId → List NodeId → Prop

namespace Onward

def add (onward : Onward) (place : Option Nat) (reads : List NodeId → Prop) : Onward :=
  fun block trace => onward block trace ∨ place = some block ∧ reads trace

variable {onward : Onward} {place : Option Nat} {first second : List NodeId → Prop}
  {block : BlockId}

@[simp] theorem add_none : onward.add none first = onward := by
  funext block trace
  simp [add]

theorem add_of_ne (differs : place ≠ some block) : onward.add place first block = onward block := by
  funext trace
  simp [add, differs]

theorem add_self (isBlank : ∀ trace, ¬ onward block trace) :
    onward.add (some block) first block = first := by
  funext trace
  simp [add, isBlank]

theorem add_add : (onward.add place first).add place second =
    onward.add place fun trace => first trace ∨ second trace := by
  funext block trace
  simp only [add, or_assoc, and_or_left]

theorem add_comm {other : Option Nat} :
    (onward.add place first).add other second = (onward.add other second).add place first := by
  funext block trace
  exact propext (or_right_comm ..)

end Onward

namespace FlowGraph

/-- Elements of the block, and then what is given from outside or along an edge. -/
inductive Reads (graph : FlowGraph) (onward : Onward) : BlockId → List NodeId → Prop
  | leave {block : BlockId} {rest : List NodeId} (leaves : onward block rest) :
      Reads graph onward block ((graph.elements block).map (·.id) ++ rest)
  | step {block next : BlockId} {rest : List NodeId} (edge : (block, next) ∈ graph.edges)
      (reads : Reads graph onward next rest) :
      Reads graph onward block ((graph.elements block).map (·.id) ++ rest)

def Passes (element : Element) (reads : List NodeId → Prop) (trace : List NodeId) : Prop :=
  ∃ rest, trace = element.id :: rest ∧ reads rest

structure IsBlank (graph : FlowGraph) (block : Nat) : Prop where
  elements : graph.elements block = []
  noEdges : ∀ next, (block, next) ∉ graph.edges

/-- Control comes to the end of the block and has nowhere to go yet. -/
structure IsOpen (graph : FlowGraph) (block : Nat) : Prop where
  inRange : block < graph.size
  noEdges : ∀ next, (block, next) ∉ graph.edges

/-- Blank blocks stay blank, but for the one that is touched. -/
structure Grows (graph : FlowGraph) (touched : Option Nat) (result : FlowGraph) : Prop where
  size_le : graph.size ≤ result.size
  isBlank : ∀ block < graph.size, touched ≠ some block → graph.IsBlank block → result.IsBlank block

section Reads

variable {graph result : FlowGraph} {onward other : Onward} {block source target : BlockId}
  {reads : List NodeId → Prop}

theorem reads_of_isBlank (isBlank : graph.IsBlank block) :
    graph.Reads onward block = onward block := by
  funext trace
  refine propext ⟨?_, fun leaves => ?_⟩
  · rintro (leaves | edge)
    · rwa [isBlank.elements]
    · exact absurd edge (isBlank.noEdges _)
  · have reads : graph.Reads onward block _ := .leave leaves
    rwa [isBlank.elements] at reads

theorem Reads.mono (inRange : block < graph.size)
    (agree : ∀ block < graph.size, onward block = other block) {trace : List NodeId}
    (reads : graph.Reads onward block trace) : graph.Reads other block trace := by
  induction reads with
  | leave leaves => exact .leave (agree _ inRange ▸ leaves)
  | step edge _ ih => exact .step edge (ih (lt_size_of_edge edge).2)

theorem reads_congr (inRange : block < graph.size)
    (agree : ∀ block < graph.size, onward block = other block) :
    graph.Reads onward block = graph.Reads other block :=
  funext fun _ => propext ⟨.mono inRange agree,
    .mono inRange fun block inRange => (agree block inRange).symm⟩

theorem reads_eq_add {place : Option Nat}
    (elements : ∀ block, result.elements block = graph.elements block)
    (edges : ∀ edge, edge ∈ result.edges ↔
      edge ∈ graph.edges ∨ place = some edge.1 ∧ edge.2 = target) :
    result.Reads onward block =
      graph.Reads (onward.add place (result.Reads onward target)) block := by
  funext trace
  refine propext ⟨fun reads => ?_, fun reads => ?_⟩
  · induction reads with
    | leave leaves =>
      rw [elements]
      exact .leave (.inl leaves)
    | step edge reads ih =>
      rw [elements]
      rcases (edges _).mp edge with isOld | ⟨isPlace, rfl⟩
      · exact .step isOld ih
      · exact .leave (.inr ⟨isPlace, reads⟩)
  · induction reads with
    | leave leaves =>
      rw [← elements]
      rcases leaves with leaves | ⟨isPlace, reads⟩
      · exact .leave leaves
      · exact .step ((edges _).mpr (.inr ⟨isPlace, rfl⟩)) reads
    | step edge _ ih =>
      rw [← elements]
      exact .step ((edges _).mpr (.inl edge)) ih

theorem reads_addBlock (kind : BlockKind) :
    (graph.addBlock kind).Reads onward block = graph.Reads onward block := by
  have same := @reads_eq_add graph (graph.addBlock kind) onward block block none
    (elements_addBlock graph kind) (fun _ => by simp)
  rwa [Onward.add_none] at same

theorem reads_addEdgeFrom {place : Option Nat} {target : Nat}
    (sourceExists : ∀ block : Nat, place = some block → block < graph.size)
    (targetExists : target < graph.size) :
    (graph.addEdgeFrom place target).Reads onward block =
      graph.Reads (onward.add place ((graph.addEdgeFrom place target).Reads onward target)) block :=
  reads_eq_add (elements_addEdgeFrom graph place target)
    (mem_edges_addEdgeFrom graph sourceExists targetExists)

theorem reads_addElement {place : BlockId} (isOpen : graph.IsOpen place)
    (isFree : ∀ trace, ¬ onward place trace) (element : Element) :
    (graph.addElement place element).Reads (onward.add (some place) reads) block =
      graph.Reads (onward.add (some place) (Passes element reads)) block := by
  have same {block : BlockId} := @elements_addElement_of_ne graph place block element
  have edges := edges_addElement graph place element
  have added := elements_addElement_self graph element isOpen.inRange
  funext trace
  refine propext ⟨fun found => ?_, fun found => ?_⟩
  · induction found with
    | @leave _ rest leaves =>
      rcases leaves with leaves | ⟨isPlace, leaves⟩
      · rw [same fun isPlace => isFree _ (isPlace ▸ leaves)]
        exact .leave (.inl leaves)
      · cases isPlace
        rw [added, List.map_append, List.append_assoc]
        exact .leave (.inr ⟨rfl, rest, rfl, leaves⟩)
    | @step _ next _ edge _ ih =>
      rw [edges] at edge
      rw [same fun isPlace => isOpen.noEdges next (isPlace ▸ edge)]
      exact .step edge ih
  · induction found with
    | @leave _ rest leaves =>
      rcases leaves with leaves | ⟨isPlace, rest, rfl, leaves⟩
      · rw [← same fun isPlace => isFree _ (isPlace ▸ leaves)]
        exact .leave (.inl leaves)
      · cases isPlace
        have found :
            (graph.addElement place element).Reads (onward.add (some place) reads) place _ :=
          .leave (.inr ⟨rfl, leaves⟩)
        rwa [added, List.map_append, List.append_assoc] at found
    | @step _ next _ edge _ ih =>
      rw [← same fun isPlace => isOpen.noEdges next (isPlace ▸ edge)]
      exact .step (edges ▸ edge) ih

end Reads

namespace Grows

variable {graph middle result : FlowGraph} {touched : Option Nat}

theorem refl (graph : FlowGraph) (touched : Option Nat) : graph.Grows touched graph :=
  ⟨Nat.le_refl _, fun _ _ _ isBlank => isBlank⟩

theorem trans {next : Option Nat} (earlier : graph.Grows touched middle)
    (later : middle.Grows next result)
    (within : ∀ block : Nat, next = some block → touched = some block ∨ graph.size ≤ block) :
    graph.Grows touched result where
  size_le := Nat.le_trans earlier.size_le later.size_le
  isBlank block old untouched isBlank := by
    refine later.isBlank block (Nat.lt_of_lt_of_le old earlier.size_le) (fun isNext => ?_)
      (earlier.isBlank block old untouched isBlank)
    exact (within block isNext).elim untouched (Nat.not_le.mpr old)

theorem addBlock (graph : FlowGraph) (kind : BlockKind) (touched : Option Nat) :
    graph.Grows touched (graph.addBlock kind) where
  size_le := by simp
  isBlank block _ _ isBlank := ⟨by simpa using isBlank.elements, by simpa using isBlank.noEdges⟩

theorem addElement (graph : FlowGraph) (place : BlockId) (element : Element) :
    graph.Grows (some place) (graph.addElement place element) where
  size_le := by simp
  isBlank block _ untouched isBlank := by
    refine ⟨?_, by simpa using isBlank.noEdges⟩
    rw [elements_addElement_of_ne graph element fun same => untouched (by rw [same])]
    exact isBlank.elements

theorem addEdge (graph : FlowGraph) (source target : BlockId) :
    graph.Grows (some source) (graph.addEdge source target) where
  size_le := by simp
  isBlank block _ untouched isBlank := by
    refine ⟨by simpa using isBlank.elements, fun next => ?_⟩
    have differs : block ≠ source := fun same => untouched (by rw [same])
    simp [isBlank.noEdges, differs]

theorem addEdgeFrom (graph : FlowGraph) (place : Option Nat) (target : BlockId) :
    graph.Grows place (graph.addEdgeFrom place target) := by
  cases place with
  | none => exact refl graph none
  | some source => exact addEdge graph source target

end Grows

theorem noEdges_of_size_le {graph : FlowGraph} {block : Nat} (isNew : graph.size ≤ block)
    (next : BlockId) : (block, next) ∉ graph.edges :=
  fun edge => absurd (lt_size_of_edge edge).1 (Nat.not_lt.mpr isNew)

end FlowGraph

namespace Drawn

open FlowGraph

variable {graph : FlowGraph} {source : Nat}

@[simp] theorem size_fork (graph : FlowGraph) (source : Nat) :
    (fork graph source).size = graph.size + 1 := by
  simp [fork]

@[simp] theorem mem_edges_fork (graph : FlowGraph) (source : Nat) (edge : FlowEdge) :
    edge ∈ (fork graph source).edges ↔
      edge ∈ graph.edges ∨ source ≤ graph.size ∧ edge = (source, graph.size) := by
  rw [← Nat.lt_succ_iff]
  simp [fork]

def forkTo (kind : BlockKind) (graph : FlowGraph) (source : BlockId) : FlowGraph :=
  (graph.addBlock kind).addEdge source graph.size

theorem fork_eq (graph : FlowGraph) (source : BlockId) :
    fork graph source = forkTo .normal graph source :=
  rfl

section Fork

variable (kind : BlockKind)

theorem grows_forkTo (graph : FlowGraph) (source : Nat) :
    graph.Grows (some source) (forkTo kind graph source) :=
  (Grows.addBlock graph kind (some source)).trans (Grows.addEdge ..) fun _ same => .inl same

theorem grows_fork (graph : FlowGraph) (source : Nat) :
    graph.Grows (some source) (fork graph source) :=
  grows_forkTo .normal graph source

variable (sourceExists : source < graph.size)

include sourceExists

theorem isBlank_forkTo : (forkTo kind graph source).IsBlank graph.size where
  elements := by simp [forkTo, elements_of_size_le]
  noEdges next := by
    have differs : graph.size ≠ source := Nat.ne_of_gt sourceExists
    simp [forkTo, noEdges_of_size_le, differs]

theorem reads_forkTo {onward : Onward} (isFree : ∀ trace, ¬ onward graph.size trace)
    {reads : List NodeId → Prop} {block : BlockId} (inRange : block < graph.size) :
    (forkTo kind graph source).Reads (onward.add (some graph.size) reads) block =
      graph.Reads (onward.add (some source) reads) block := by
  have forked : forkTo kind graph source =
      (graph.addBlock kind).addEdgeFrom (some source) graph.size := rfl
  have atStart := @reads_of_isBlank _ (onward.add (some graph.size) reads) _
    (isBlank_forkTo kind sourceExists)
  rw [Onward.add_self isFree] at atStart
  rw [forked, reads_addEdgeFrom (by rintro _ ⟨rfl⟩; simp; omega) (by simp), reads_addBlock,
    ← forked, atStart]
  refine reads_congr inRange fun block inRange => ?_
  rw [Onward.add_comm, Onward.add_of_ne fun same => Nat.ne_of_gt inRange (Option.some.inj same)]

theorem isOpen_fork : (fork graph source).IsOpen graph.size :=
  ⟨by simp, (isBlank_forkTo .normal sourceExists).noEdges⟩

end Fork

end Drawn

end PyStatic
