import PyStatic.Proofs.Flow.Partition

/-!
Contract: the form of a function's flow graph.
-/

namespace PyStatic

open List FlowGraph

/-- A loop header holds its loop statement, and no other block holds one. -/
def Block.Formed (block : Block) : Prop :=
  match block.kind with
  | .entry | .exit => block.elements = []
  | .loopHeader => ∃ loop : Stmt, loop.isLoop = true ∧ block.elements = [.stmt loop]
  | .normal => ∀ element ∈ block.elements, element.isLoop = false

namespace FlowGraph

def ListsOnce (graph : FlowGraph) : Prop :=
  ∀ block, (graph.successors block).Nodup ∧ (graph.predecessors block).Nodup

/-- Control comes from the entry, and only passable blocks are passed. -/
structure Formed (graph : FlowGraph) : Prop where
  entryKind : graph.kind? entry = some .entry
  exitKind : graph.kind? exit = some .exit
  starts : (entry, start) ∈ graph.edges
  sources : ∀ source target, (source, target) ∈ graph.edges →
    source = entry ∧ target = start ∨ graph.Passable source
  targets : ∀ source target, (source, target) ∈ graph.edges →
    graph.Passable target ∨ graph.kind? target = some .exit
  distinct : graph.ListsOnce
  blocks : ∀ id block, graph.get? id = some block → block.Formed

section ListsOnce

theorem nodup_listOnce {ends : List BlockId} (distinct : ends.Nodup) (id : BlockId) :
    (Block.listOnce ends id).Nodup := by
  unfold Block.listOnce
  split
  · exact distinct
  · next isNew =>
    apply distinct.append (nodup_singleton _)
    simpa using isNew

theorem nodup_listed_modify (list : Block → List BlockId) (change : Block → Block)
    {blocks : Array Block} (keeps : ∀ block, (list block).Nodup → (list (change block)).Nodup)
    {id : BlockId} (distinct : (Block.listed list blocks id).Nodup) (place : BlockId) :
    (Block.listed list (blocks.modify place change) id).Nodup := by
  unfold Block.listed at distinct ⊢
  rw [Array.getElem?_modify]
  split
  · cases found : blocks[id]? with
    | none => exact nodup_nil
    | some block =>
      rw [found] at distinct
      exact keeps block distinct
  · exact distinct

namespace ListsOnce

variable {graph : FlowGraph} (distinct : graph.ListsOnce)

include distinct

theorem addBlock (kind : BlockKind) : (graph.addBlock kind).ListsOnce := by
  intro block
  rw [successors_addBlock, predecessors_addBlock]
  exact distinct block

theorem addElement (place : BlockId) (element : Element) :
    (graph.addElement place element).ListsOnce := by
  intro block
  rw [successors_addElement, predecessors_addElement]
  exact distinct block

/-- Each of the two lists is looked through before it is added to. -/
theorem addEdge (source target : BlockId) : (graph.addEdge source target).ListsOnce := by
  unfold FlowGraph.addEdge
  split
  · intro block
    constructor
    · have first := nodup_listed_modify (·.successors) (·.addSuccessor target)
        (fun _ once => nodup_listOnce once target) (distinct block).1 source
      exact nodup_listed_modify (·.successors) (·.addPredecessor source) (fun _ once => once)
        first target
    · have first := nodup_listed_modify (·.predecessors) (·.addSuccessor target)
        (fun _ once => once) (distinct block).2 source
      exact nodup_listed_modify _ (·.addPredecessor source)
        (fun _ once => nodup_listOnce once source) first target
  · exact distinct

end ListsOnce

end ListsOnce

section Strokes

variable {graph result : FlowGraph} {placed : List Element}

theorem formed_of_addEdge (formed : ∀ id block, graph.get? id = some block → block.Formed)
    (source target : BlockId) {id : BlockId} {block : Block}
    (found : (graph.addEdge source target).get? id = some block) : block.Formed := by
  have same := map_get?_addEdge graph (fun block => (block.kind, block.elements))
    (fun _ _ => ⟨rfl, rfl⟩) source target id
  rw [found, eq_comm, Option.map_some, Option.map_eq_some_iff] at same
  obtain ⟨old, isOld, same⟩ := same
  obtain ⟨sameKind, sameElements⟩ := Prod.mk.inj same
  have held := formed id old isOld
  unfold Block.Formed at held ⊢
  rwa [← sameKind, ← sameElements]

theorem formed_blocks_stroke (stroke : Stroke graph placed result)
    (formed : ∀ id block, graph.get? id = some block → block.Formed) :
    ∀ id block, result.get? id = some block → block.Formed := by
  intro id block found
  cases stroke with
  | block =>
    rw [get?_addBlock] at found
    split at found
    · cases found
      simp [Block.Formed]
    · exact formed id block found
  | header isLoop =>
    rw [get?_addElement, get?_addBlock] at found
    by_cases isNew : graph.size = id
    · rw [if_pos isNew, if_pos isNew.symm] at found
      cases found
      exact ⟨_, isLoop, rfl⟩
    · rw [if_neg isNew, if_neg fun same => isNew same.symm] at found
      exact formed id block found
  | element isNormal noLoop =>
    next place element =>
    rw [get?_addElement] at found
    split at found
    · next isPlace =>
        subst isPlace
        obtain ⟨old, present, rfl⟩ := Option.map_eq_some_iff.mp found
        have isNormal : old.kind = .normal := by simpa [kind?, present] using isNormal
        have held := formed place old present
        simp only [Block.Formed, isNormal, Block.addElement] at held ⊢
        intro other isIn
        rcases mem_append.mp isIn with isOld | isNew
        · exact held other isOld
        · rw [mem_singleton.mp isNew]
          exact noLoop
    · exact formed id block found
  | edge => exact formed_of_addEdge formed _ _ found

theorem Formed.stroke (formed : graph.Formed) (stroke : Stroke graph placed result) :
    result.Formed := by
  have within := stroke.within
  -- an edge is old, or the one that this stroke draws
  have drawn : ∀ source target, (source, target) ∈ result.edges →
      (source, target) ∈ graph.edges ∨ result.Passable source ∧
        (result.Passable target ∨ result.kind? target = some .exit) := by
    intro source target isEdge
    cases stroke with
    | edge leaves enters =>
      rw [mem_edges_addEdge, Prod.mk.injEq] at isEdge
      rcases isEdge with isOld | ⟨-, rfl, rfl⟩
      · exact .inl isOld
      · exact .inr ⟨within.passable leaves, enters.imp within.passable (within.kind _ .exit)⟩
    | _ => exact .inl (by simpa using isEdge)
  refine ⟨within.kind _ _ formed.entryKind, within.kind _ _ formed.exitKind,
    within.edges _ formed.starts, ?_, ?_, ?_, formed_blocks_stroke stroke formed.blocks⟩
  · intro source target isEdge
    rcases drawn source target isEdge with isOld | ⟨leaves, -⟩
    · exact (formed.sources source target isOld).imp id within.passable
    · exact .inr leaves
  · intro source target isEdge
    rcases drawn source target isEdge with isOld | ⟨-, enters⟩
    · exact (formed.targets source target isOld).imp within.passable (within.kind _ .exit)
    · exact enters
  · cases stroke with
    | block => exact formed.distinct.addBlock .normal
    | header => exact (formed.distinct.addBlock .loopHeader).addElement _ _
    | element => exact formed.distinct.addElement _ _
    | edge => exact formed.distinct.addEdge _ _

theorem Formed.strokes (formed : graph.Formed) (strokes : Strokes graph placed result) :
    result.Formed := by
  induction strokes with
  | refl => exact formed
  | tail _ stroke ih => exact ih.stroke stroke

end Strokes

theorem listsOnce_empty : empty.ListsOnce := by
  refine ListsOnce.addBlock (ListsOnce.addBlock ?_ .entry) .exit
  intro block
  simp [successors, predecessors, Block.listed]

theorem formed_start : (Drawn.fork empty entry).Formed := by
  have isStart {source target : BlockId}
      (isEdge : (source, target) ∈ (Drawn.fork empty entry).edges) :
      source = entry ∧ target = start := by
    have noEdges : empty.edges = [] := rfl
    simp only [Drawn.mem_edges_fork, noEdges, not_mem_nil, false_or, Prod.mk.injEq] at isEdge
    exact isEdge.2
  refine ⟨rfl, rfl, by decide, ?_, ?_, (listsOnce_empty.addBlock .normal).addEdge _ _, ?_⟩
  · exact fun _ _ isEdge => .inl (isStart isEdge)
  · intro source target isEdge
    rw [(isStart isEdge).2]
    exact .inl (.inl rfl)
  · intro id block found
    refine formed_of_addEdge (fun id block found => ?_) _ _ found
    have isBlock : block ∈ (empty.addBlock .normal).blocks := Array.mem_of_getElem? found
    have isOne : block = { kind := .entry } ∨ block = { kind := .exit } ∨
        block = { kind := .normal } := by
      simpa [empty, FlowGraph.addBlock] using isBlock
    rcases isOne with rfl | rfl | rfl
    · rfl
    · rfl
    · simp [Block.Formed]

/-- Successors and predecessors exist, agree and are listed once. -/
structure Regular (graph : FlowGraph) : Prop where
  successor_exists : ∀ block, ∀ next ∈ graph.successors block, next < graph.size
  predecessor_exists : ∀ block, ∀ previous ∈ graph.predecessors block, previous < graph.size
  agree : ∀ block next, next ∈ graph.successors block ↔ block ∈ graph.predecessors next
  successors_nodup : ∀ block, (graph.successors block).Nodup
  predecessors_nodup : ∀ block, (graph.predecessors block).Nodup
  entry_kind : graph.kind? entry = some .entry
  entry_elements : graph.elements entry = []
  entry_predecessors : graph.predecessors entry = []
  entry_successors : ∃ next, graph.successors entry = [next]
  exit_kind : graph.kind? exit = some .exit
  exit_elements : graph.elements exit = []
  exit_successors : graph.successors exit = []
  header_elements : ∀ block, graph.kind? block = some .loopHeader →
    ∃ loop : Stmt, loop.isLoop = true ∧ graph.elements block = [.stmt loop]
  leads_to_exit : ∀ block, block < graph.size → ∃ blocks, graph.Path block blocks exit

namespace Formed

variable {graph : FlowGraph} (formed : graph.Formed) {id : BlockId} {source target : BlockId}

include formed

theorem exit_edge (target : BlockId) : (exit, target) ∉ graph.edges := by
  intro edge
  rcases formed.sources exit target edge with ⟨isEntry, -⟩ | passable
  · exact absurd isEntry (by decide)
  · simp [Passable, formed.exitKind] at passable

theorem entry_edge (source : BlockId) : (source, entry) ∉ graph.edges := by
  intro edge
  have enters := formed.targets source entry edge
  simp [Passable, formed.entryKind] at enters

theorem successors_entry : graph.successors entry = [start] := by
  apply perm_singleton.mp
  rw [perm_ext_iff_of_nodup (formed.distinct entry).1 (nodup_singleton _)]
  intro next
  rw [mem_successors, mem_singleton]
  constructor
  · intro edge
    rcases formed.sources entry next edge with ⟨-, isStart⟩ | passable
    · exact isStart
    · simp [Passable, formed.entryKind] at passable
  · rintro rfl
    exact formed.starts

theorem exists_block {kind : BlockKind} (found : graph.kind? id = some kind) :
    ∃ block : Block, block.Formed ∧ block.kind = kind ∧ graph.elements id = block.elements := by
  obtain ⟨block, present, isKind⟩ := Option.map_eq_some_iff.mp found
  exact ⟨block, formed.blocks id block present, isKind, elements_of_get? present⟩

theorem elements_eq_nil {kind : BlockKind} (found : graph.kind? id = some kind)
    (isBorder : kind = .entry ∨ kind = .exit) : graph.elements id = [] := by
  obtain ⟨block, isFormed, isKind, held⟩ := formed.exists_block found
  rw [held]
  rcases isBorder with rfl | rfl <;> simpa [Block.Formed, isKind] using isFormed

theorem elements_header (isHeader : graph.kind? id = some .loopHeader) :
    ∃ loop : Stmt, loop.isLoop = true ∧ graph.elements id = [.stmt loop] := by
  obtain ⟨block, isFormed, isKind, held⟩ := formed.exists_block isHeader
  rw [held]
  simpa [Block.Formed, isKind] using isFormed

theorem header_of_loop {loop : Stmt} (isLoop : loop.isLoop = true)
    (isIn : .stmt loop ∈ graph.elements id) :
    graph.kind? id = some .loopHeader ∧ graph.elements id = [.stmt loop] := by
  cases found : graph.get? id with
  | none => simp [elements, Block.listed, show graph.blocks[id]? = none from found] at isIn
  | some block =>
    have isFormed := formed.blocks id block found
    have held : graph.elements id = block.elements := elements_of_get? found
    rw [held] at isIn ⊢
    cases isKind : block.kind with
    | loopHeader =>
      obtain ⟨other, -, alone⟩ : ∃ other : Stmt, other.isLoop = true ∧
          block.elements = [.stmt other] := by
        simpa [Block.Formed, isKind] using isFormed
      have same : Element.stmt loop = .stmt other := by simpa [alone] using isIn
      exact ⟨by simp [kind?, found, isKind], by rw [alone, same]⟩
    | normal =>
      have noLoops : ∀ element ∈ block.elements, element.isLoop = false := by
        simpa [Block.Formed, isKind] using isFormed
      have noLoop : loop.isLoop = false := noLoops _ isIn
      simp [isLoop] at noLoop
    | entry => simp_all [Block.Formed]
    | exit => simp_all [Block.Formed]

theorem regular (leadsToExit : ∀ block, block < graph.size → graph.Reaches block exit) :
    graph.Regular where
  successor_exists block next isNext := (lt_size_of_edge ((mem_successors ..).mp isNext)).2
  predecessor_exists block previous isPrevious :=
    (lt_size_of_edge ((mem_predecessors ..).mp isPrevious)).1
  agree := graph.mirrored
  successors_nodup block := (formed.distinct block).1
  predecessors_nodup block := (formed.distinct block).2
  entry_kind := formed.entryKind
  entry_elements := formed.elements_eq_nil formed.entryKind (.inl rfl)
  entry_predecessors := by
    apply eq_nil_iff_forall_not_mem.mpr
    simpa using formed.entry_edge
  entry_successors := ⟨start, formed.successors_entry⟩
  exit_kind := formed.exitKind
  exit_elements := formed.elements_eq_nil formed.exitKind (.inr rfl)
  exit_successors := by
    apply eq_nil_iff_forall_not_mem.mpr
    simpa using formed.exit_edge
  header_elements _ isHeader := formed.elements_header isHeader
  leads_to_exit := leadsToExit

end Formed

end FlowGraph

section Graph

variable {body : List Stmt} (free : Stmt.TryFree body)

include free

theorem Stmt.graph_formed : (Stmt.graph body).Formed :=
  formed_start.strokes (Stmt.graph_leads free).strokes

theorem Stmt.graph_reaches_exit (block : BlockId)
    (inRange : block < (Stmt.graph body).size) :
    (Stmt.graph body).Reaches block exit := by
  have leads := Stmt.graph_leads free
  -- nothing is left open, and outside of loops a jump goes to the exit
  have reaches {other : BlockId} (onwards : (Stmt.graph body).LeadsOn none [] other) :
      (Stmt.graph body).Reaches other exit := by
    obtain ⟨goal, reaches, (rfl | ⟨_, noLoop, -⟩) | isOpen⟩ := onwards
    · exact reaches
    · exact absurd noLoop (by simp)
    · exact absurd isOpen not_mem_nil
  have fromStart := reaches (leads.opened start (mem_singleton_self _))
  by_cases isNew : (Drawn.fork .empty entry).size ≤ block
  · exact reaches (leads.made block isNew inRange)
  · have isOne : block = entry ∨ block = exit ∨ block = start := by
      have isOld : block < 3 := Nat.lt_of_not_le isNew
      match block, isOld with
      | 0, _ => exact .inl rfl
      | 1, _ => exact .inr (.inl rfl)
      | 2, _ => exact .inr (.inr rfl)
    rcases isOne with rfl | rfl | rfl
    · exact .step (Stmt.graph_formed free).starts fromStart
    · exact .refl _ _
    · exact fromStart

theorem Stmt.graph_headers (loop : Stmt) :
    .stmt loop ∈ Stmt.ownElementsOfAll body ∧ loop.isLoop = true ↔
      ∃ block, (Stmt.graph body).kind? block = some .loopHeader ∧
        (Stmt.graph body).elements block = [.stmt loop] := by
  have formed := Stmt.graph_formed free
  rw [← (Stmt.graph_allElements body free).mem_iff]
  constructor
  · rintro ⟨isIn, isLoop⟩
    obtain ⟨block, -, isElement⟩ := mem_flatMap.mp isIn
    exact ⟨block, formed.header_of_loop isLoop isElement⟩
  · rintro ⟨block, isHeader, held⟩
    obtain ⟨other, isLoop, alone⟩ := formed.elements_header isHeader
    obtain rfl : loop = other := by simpa [held] using alone
    have inRange : block ∈ (Stmt.graph body).ids :=
      List.mem_range.mpr (lt_size_of_kind? isHeader)
    exact ⟨mem_flatMap.mpr ⟨block, inRange, by simp [held]⟩, isLoop⟩

end Graph

/-- Without `try` the graph is regular, with one loop header for each loop. -/
theorem FunctionDef.flow_regular (function : FunctionDef)
    (noTry : ¬ ∃ stmt : Stmt, stmt.OccursIn function.body ∧ stmt.isTry = true) :
    ∃ graph, function.flow? = some graph ∧ graph.Regular ∧
      ∀ loop : Stmt, .stmt loop ∈ Stmt.ownElementsOfAll function.body ∧ loop.isLoop = true ↔
        ∃ block, graph.kind? block = some .loopHeader ∧ graph.elements block = [.stmt loop] := by
  have free : Stmt.TryFree function.body := by
    intro stmt occurs
    by_contra isTry
    exact noTry ⟨stmt, occurs, by simpa using isTry⟩
  refine ⟨Stmt.graph function.body, ?_, ?_, Stmt.graph_headers free⟩
  · rw [FunctionDef.flow?, (Stmt.containTry_eq_false_iff function.body).mpr free]
    rfl
  · exact (Stmt.graph_formed free).regular (Stmt.graph_reaches_exit free)

def FunctionDef.seeking : FunctionDef :=
  let mark (id : NodeId) : Mark := ⟨id, ⟨0, 0⟩⟩
  ⟨⟨mark 0, ⟨mark 1, "seek"⟩, [], none, [], false⟩,
    [.whileLoop (mark 2) (.name ⟨mark 3, "more"⟩)
        [.whileLoop (mark 4) (.name ⟨mark 5, "open"⟩) [.simple (mark 6) .nextRound]
            [.simple (mark 7) .leaveLoop],
          .simple (mark 8) .pass] [],
      .simple (mark 9) (.ret none)]⟩

theorem FunctionDef.seeking_regular :
    ∃ graph, FunctionDef.seeking.flow? = some graph ∧ graph.Regular ∧
      (graph.elements 7).map (·.id) = [8] ∧ graph.predecessors 7 = [] ∧
      ∃ blocks, graph.Path 7 blocks FlowGraph.exit := by
  have noTry : ¬ ∃ stmt : Stmt, stmt.OccursIn FunctionDef.seeking.body ∧ stmt.isTry = true := by
    have free := (Stmt.containTry_eq_false_iff FunctionDef.seeking.body).mp (by decide)
    rintro ⟨stmt, occurs, isTry⟩
    exact absurd isTry (by simp [free stmt occurs])
  obtain ⟨graph, drawn, regular, -⟩ := FunctionDef.flow_regular FunctionDef.seeking noTry
  have isGraph : graph = Stmt.graph FunctionDef.seeking.body := by
    have same : FunctionDef.seeking.flow? = some (Stmt.graph FunctionDef.seeking.body) := rfl
    exact Option.some.inj (drawn.symm.trans same)
  subst isGraph
  exact ⟨_, drawn, regular, by decide, by decide, regular.leads_to_exit 7 (by decide)⟩

end PyStatic
