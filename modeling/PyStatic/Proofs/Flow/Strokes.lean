import PyStatic.Proofs.Flow.Drawing
import PyStatic.Proofs.Flow.Suites
import Mathlib.Data.List.Nodup

/-!
Contract: the strokes that a drawing is made of.

While a part is drawn some blocks are open, and a block that is closed leads to an open one, to a
target of the loop around, or to the exit. Parts compose like commands between conditions.
-/

namespace PyStatic

open List FlowGraph

def Stmt.isLoop : Stmt → Bool
  | forLoop _ _ _ _ _ _ => true
  | whileLoop _ _ _ _ => true
  | _ => false

def Element.isLoop (element : Element) : Bool :=
  element.stmt?.any (·.isLoop)

namespace FlowGraph

section Blocks

variable (graph : FlowGraph)

theorem get?_addBlock (kind : BlockKind) (block : BlockId) :
    (graph.addBlock kind).get? block =
      if block = graph.size then some { kind } else graph.get? block :=
  Array.getElem?_push

theorem get?_addElement (place : BlockId) (element : Element) (block : BlockId) :
    (graph.addElement place element).get? block =
      if place = block then
        (graph.get? block).map (·.addElement element)
      else graph.get? block :=
  Array.getElem?_modify

theorem kind?_addBlock (kind : BlockKind) (block : BlockId) :
    (graph.addBlock kind).kind? block =
      if block = graph.size then some kind else graph.kind? block := by
  rw [kind?, get?_addBlock]
  split <;> rfl

@[simp] theorem kind?_addElement (place : BlockId) (element : Element) (block : BlockId) :
    (graph.addElement place element).kind? block = graph.kind? block := by
  rw [kind?, get?_addElement]
  split
  · cases found : graph.get? block <;> simp [kind?, found, Block.addElement]
  · rfl

@[simp] theorem kind?_addEdge (source target block : BlockId) :
    (graph.addEdge source target).kind? block = graph.kind? block :=
  map_get?_addEdge graph (·.kind) (fun _ _ => ⟨rfl, rfl⟩) ..

theorem modify_comm (first second : Block → Block) (comm : first ∘ second = second ∘ first)
    (blocks : Array Block) (place other : BlockId) :
    (blocks.modify place first).modify other second =
      (blocks.modify other second).modify place first := by
  refine Array.ext_getElem? fun id => ?_
  simp only [Array.getElem?_modify]
  split <;> split <;> simp [comm]

theorem addElement_addEdge (source target place : BlockId) (element : Element) :
    (graph.addEdge source target).addElement place element =
      (graph.addElement place element).addEdge source target := by
  unfold addEdge
  simp only [size_addElement]
  split
  · simp only [addElement, FlowEdge.drawnIn, mk.injEq]
    rw [modify_comm (·.addPredecessor source) (·.addElement element) rfl,
      modify_comm (·.addSuccessor target) (·.addElement element) rfl]
  · rfl

variable {graph} {block : BlockId} {kind : BlockKind}

theorem lt_size_of_kind? (found : graph.kind? block = some kind) : block < graph.size := by
  by_contra outside
  have nothing : graph.get? block = none := Array.getElem?_eq_none (Nat.le_of_not_lt outside)
  simp [kind?, nothing] at found

end Blocks

def Passable (graph : FlowGraph) (block : BlockId) : Prop :=
  graph.kind? block = some .normal ∨ graph.kind? block = some .loopHeader

theorem Passable.lt_size {graph : FlowGraph} {block : BlockId} (passable : graph.Passable block) :
    block < graph.size :=
  passable.elim lt_size_of_kind? lt_size_of_kind?

/-- One change to a graph that is drawn, with the elements it places. -/
inductive Stroke : FlowGraph → List Element → FlowGraph → Prop where
  | block (graph : FlowGraph) : Stroke graph [] (graph.addBlock .normal)
  | header (graph : FlowGraph) {loop : Stmt} (isLoop : loop.isLoop = true) :
      Stroke graph [.stmt loop]
        ((graph.addBlock .loopHeader).addElement graph.size (.stmt loop))
  | element {graph : FlowGraph} {block : BlockId} {element : Element}
      (isNormal : graph.kind? block = some .normal) (noLoop : element.isLoop = false) :
      Stroke graph [element] (graph.addElement block element)
  | edge {graph : FlowGraph} {source target : BlockId} (leaves : graph.Passable source)
      (enters : graph.Passable target ∨ graph.kind? target = some .exit) :
      Stroke graph [] (graph.addEdge source target)

inductive Strokes (graph : FlowGraph) : List Element → FlowGraph → Prop where
  | refl : Strokes graph [] graph
  | tail {placed more : List Element} {middle result : FlowGraph}
      (strokes : Strokes graph placed middle) (stroke : Stroke middle more result) :
      Strokes graph (placed ++ more) result

section Strokes

variable {graph middle result : FlowGraph} {placed more : List Element}

theorem Stroke.strokes (stroke : Stroke graph placed result) : Strokes graph placed result :=
  .tail .refl stroke

theorem Strokes.trans (first : Strokes graph placed middle) (second : Strokes middle more result) :
    Strokes graph (placed ++ more) result := by
  induction second with
  | refl => rwa [append_nil]
  | tail _ stroke ih =>
    rw [← append_assoc]
    exact ih.tail stroke

structure Within (graph result : FlowGraph) : Prop where
  size_le : graph.size ≤ result.size
  kind : ∀ block kind, graph.kind? block = some kind → result.kind? block = some kind
  edges : ∀ edge ∈ graph.edges, edge ∈ result.edges

theorem Stroke.within (stroke : Stroke graph placed result) : graph.Within result := by
  have kept (made : BlockKind) (block : BlockId) (kind : BlockKind)
      (found : graph.kind? block = some kind) : (graph.addBlock made).kind? block = some kind := by
    have older := lt_size_of_kind? found
    rw [kind?_addBlock, if_neg (Nat.ne_of_lt older)]
    exact found
  cases stroke with
  | block => exact ⟨by simp, kept .normal, by simp⟩
  | header =>
    refine ⟨by simp, ?_, by simp⟩
    intro block kind found
    rw [kind?_addElement]
    exact kept .loopHeader block kind found
  | element => exact ⟨by simp, by simp, by simp⟩
  | edge => exact ⟨by simp, by simp, fun edge isOld => by simp [isOld]⟩

theorem Strokes.within (strokes : Strokes graph placed result) : graph.Within result := by
  induction strokes with
  | refl => exact ⟨Nat.le_refl _, fun _ _ found => found, fun _ edge => edge⟩
  | tail _ stroke ih =>
    have last := stroke.within
    exact ⟨Nat.le_trans ih.size_le last.size_le,
      fun block kind found => last.kind block kind (ih.kind block kind found),
      fun edge isOld => last.edges edge (ih.edges edge isOld)⟩

theorem Within.passable (within : graph.Within result)
    {block : BlockId} (passable : graph.Passable block) : result.Passable block :=
  passable.imp (within.kind block .normal) (within.kind block .loopHeader)

end Strokes

def start : BlockId := 2

def Reaches (graph : FlowGraph) (first last : BlockId) : Prop :=
  ∃ blocks, graph.Path first blocks last

namespace Reaches

variable {graph result : FlowGraph} {first next last : BlockId}

theorem refl (graph : FlowGraph) (block : BlockId) : graph.Reaches block block :=
  ⟨[block], .here block⟩

theorem step (edge : (first, next) ∈ graph.edges) (rest : graph.Reaches next last) :
    graph.Reaches first last := by
  obtain ⟨blocks, path⟩ := rest
  exact ⟨first :: blocks, .step ((mem_successors graph first next).mpr edge) path⟩

theorem trans (earlier : graph.Reaches first next) (later : graph.Reaches next last) :
    graph.Reaches first last := by
  obtain ⟨blocks, path⟩ := earlier
  induction path with
  | here => exact later
  | step edge _ ih =>
    exact step ((mem_successors graph _ _).mp edge) (ih later)

theorem mono (reaches : graph.Reaches first last) (within : graph.Within result) :
    result.Reaches first last := by
  obtain ⟨blocks, path⟩ := reaches
  induction path with
  | here block => exact refl result block
  | step edge _ ih =>
    exact step (within.edges _ ((mem_successors graph _ _).mp edge)) ih

end Reaches

def JumpsTo (loop : Option LoopTargets) (block : BlockId) : Prop :=
  block = exit ∨ ∃ targets, loop = some targets ∧ (block = targets.header ∨ block = targets.after)

def LeadsOn (graph : FlowGraph) (loop : Option LoopTargets) (opens : List BlockId)
    (block : BlockId) : Prop :=
  ∃ goal, graph.Reaches block goal ∧ (JumpsTo loop goal ∨ goal ∈ opens)

theorem leadsOn_of_mem (graph : FlowGraph) (loop : Option LoopTargets) {opens : List BlockId}
    {block : BlockId} (isOpen : block ∈ opens) : graph.LeadsOn loop opens block :=
  ⟨block, .refl graph block, .inr isOpen⟩

/-- All blocks that were open before or are new lead on. -/
structure Leads (loop : Option LoopTargets) (placed : List Element) (graph : FlowGraph)
    (opens : List BlockId) (result : FlowGraph) (later : List BlockId) : Prop where
  strokes : Strokes graph placed result
  opened : ∀ block ∈ opens, result.LeadsOn loop later block
  made : ∀ block, graph.size ≤ block → block < result.size → result.LeadsOn loop later block

namespace Leads

variable {loop : Option LoopTargets} {graph middle result : FlowGraph}
  {opens between later : List BlockId} {placed more : List Element}

theorem within (leads : Leads loop placed graph opens result later) : graph.Within result :=
  leads.strokes.within

theorem onwards (leads : Leads loop placed middle between result later) {block : BlockId}
    (earlier : middle.LeadsOn loop between block) : result.LeadsOn loop later block := by
  obtain ⟨goal, reaches, jumps | isOpen⟩ := earlier
  · exact ⟨goal, reaches.mono leads.within, .inl jumps⟩
  · obtain ⟨last, rest, ends⟩ := leads.opened goal isOpen
    exact ⟨last, (reaches.mono leads.within).trans rest, ends⟩

theorem refl (loop : Option LoopTargets) (graph : FlowGraph) (opens : List BlockId) :
    Leads loop [] graph opens graph opens where
  strokes := .refl
  opened _ isOpen := leadsOn_of_mem graph loop isOpen
  made _ isNew inRange := absurd inRange (Nat.not_lt.mpr isNew)

theorem trans (first : Leads loop placed graph opens middle between)
    (second : Leads loop more middle between result later) :
    Leads loop (placed ++ more) graph opens result later where
  strokes := first.strokes.trans second.strokes
  opened block isOpen := second.onwards (first.opened block isOpen)
  made block isNew inRange := by
    by_cases older : block < middle.size
    · exact second.onwards (first.made block isNew older)
    · exact second.made block (Nat.le_of_not_lt older) inRange

theorem frame (leads : Leads loop placed graph opens result later) (others : List BlockId) :
    Leads loop placed graph (opens ++ others) result (later ++ others) := by
  have more {block : BlockId} (onwards : result.LeadsOn loop later block) :
      result.LeadsOn loop (later ++ others) block := by
    obtain ⟨goal, reaches, ends⟩ := onwards
    exact ⟨goal, reaches, ends.imp id (mem_append_left others)⟩
  refine ⟨leads.strokes, ?_, fun block isNew inRange => more (leads.made block isNew inRange)⟩
  intro block isOpen
  rcases mem_append.mp isOpen with isFirst | isOther
  · exact more (leads.opened block isFirst)
  · exact leadsOn_of_mem result loop (mem_append_right later isOther)

theorem weaken {fewer further : List BlockId} (leads : Leads loop placed graph opens result later)
    (before : fewer ⊆ opens) (after : later ⊆ further) :
    Leads loop placed graph fewer result further := by
  have wider {block : BlockId} (onwards : result.LeadsOn loop later block) :
      result.LeadsOn loop further block := by
    obtain ⟨goal, reaches, ends⟩ := onwards
    exact ⟨goal, reaches, ends.imp id fun isOpen => after isOpen⟩
  exact ⟨leads.strokes, fun block isOpen => wider (leads.opened block (before isOpen)),
    fun block isNew inRange => wider (leads.made block isNew inRange)⟩

theorem andThen {part done : List BlockId} (first : Leads loop placed graph opens middle between)
    (second : Leads loop more middle part result done) (others : List BlockId)
    (covered : between ⊆ part ++ others) :
    Leads loop (placed ++ more) graph opens result (done ++ others) :=
  first.trans ((second.frame others).weaken covered (Subset.refl _))

theorem frameLeft (leads : Leads loop placed graph opens result later) (others : List BlockId) :
    Leads loop placed graph (others ++ opens) result (others ++ later) :=
  (leads.frame others).weaken (by simp) (by simp)

theorem leaveLoop {targets : LoopTargets}
    (leads : Leads (some targets) placed graph opens result later) (loop : Option LoopTargets) :
    Leads loop placed graph opens result (later ++ [targets.header, targets.after]) := by
  have outside {block : BlockId} (onwards : result.LeadsOn (some targets) later block) :
      result.LeadsOn loop (later ++ [targets.header, targets.after]) block := by
    obtain ⟨goal, reaches, (isExit | ⟨_, ⟨rfl⟩, isTarget⟩) | isOpen⟩ := onwards
    · exact ⟨goal, reaches, .inl (.inl isExit)⟩
    · exact ⟨goal, reaches, .inr (by simpa using .inr isTarget)⟩
    · exact ⟨goal, reaches, .inr (mem_append_left _ isOpen)⟩
  exact ⟨leads.strokes, fun block isOpen => outside (leads.opened block isOpen),
    fun block isNew inRange => outside (leads.made block isNew inRange)⟩

theorem addBlock (loop : Option LoopTargets) (graph : FlowGraph) :
    Leads loop [] graph [] (graph.addBlock .normal) [graph.size] where
  strokes := (Stroke.block graph).strokes
  opened _ isOpen := absurd isOpen not_mem_nil
  made block isNew inRange := by
    rw [size_addBlock] at inRange
    apply leadsOn_of_mem
    rw [mem_singleton]
    exact Nat.le_antisymm (Nat.le_of_lt_succ inRange) isNew

theorem addElement {block : BlockId} (isNormal : graph.kind? block = some .normal)
    {element : Element} (noLoop : element.isLoop = false) (loop : Option LoopTargets)
    (opens : List BlockId) :
    Leads loop [element] graph opens (graph.addElement block element) opens where
  strokes := (Stroke.element isNormal noLoop).strokes
  opened _ isOpen := leadsOn_of_mem _ loop isOpen
  made _ isNew inRange := by
    rw [size_addElement] at inRange
    exact absurd inRange (Nat.not_lt.mpr isNew)

section Edge

variable {source target : BlockId} {ending : Option BlockId}

theorem addEdge_of_leadsOn (leaves : graph.Passable source)
    (enters : graph.Passable target ∨ graph.kind? target = some .exit)
    (onwards : (graph.addEdge source target).LeadsOn loop later target) :
    Leads loop [] graph [source] (graph.addEdge source target) later where
  strokes := (Stroke.edge leaves enters).strokes
  opened block isOpen := by
    obtain ⟨goal, reaches, ends⟩ := onwards
    rw [mem_singleton.mp isOpen]
    have inRange : source < graph.size ∧ target < graph.size :=
      ⟨leaves.lt_size, enters.elim Passable.lt_size lt_size_of_kind?⟩
    exact ⟨goal, .step (by simp [inRange]) reaches, ends⟩
  made _ isNew inRange := by
    rw [size_addEdge] at inRange
    exact absurd inRange (Nat.not_lt.mpr isNew)

theorem addEdge (loop : Option LoopTargets) (leaves : graph.Passable source)
    (enters : graph.Passable target) :
    Leads loop [] graph [source] (graph.addEdge source target) [target] :=
  addEdge_of_leadsOn leaves (.inl enters) (leadsOn_of_mem _ loop (mem_singleton_self _))

theorem addJump (leaves : graph.Passable source)
    (enters : graph.Passable target ∨ graph.kind? target = some .exit)
    (jumps : JumpsTo loop target) :
    Leads loop [] graph [source] (graph.addEdge source target) [] :=
  addEdge_of_leadsOn leaves enters ⟨target, .refl _ target, .inl jumps⟩

theorem addJumpFrom (leaves : ∀ block, ending = some block → graph.kind? block = some .normal)
    (enters : graph.Passable target ∨ graph.kind? target = some .exit)
    (jumps : JumpsTo loop target) :
    Leads loop [] graph ending.toList (graph.addEdgeFrom ending target) [] := by
  cases ending with
  | none => exact refl loop graph []
  | some source => exact addJump (.inl (leaves source rfl)) enters jumps

theorem addEdgeFrom (loop : Option LoopTargets)
    (leaves : ∀ block, ending = some block → graph.kind? block = some .normal)
    (enters : graph.Passable target) :
    Leads loop [] graph ending.toList (graph.addEdgeFrom ending target) [target] := by
  cases ending with
  | none => exact (refl loop graph []).weaken (by simp) (by simp)
  | some source => exact addEdge loop (.inl (leaves source rfl)) enters

end Edge

theorem fork (loop : Option LoopTargets) {source : BlockId} (leaves : graph.Passable source) :
    Leads loop [] graph [] (Drawn.fork graph source) [graph.size] := by
  have made := addBlock loop graph
  have enters : (graph.addBlock .normal).Passable graph.size := by
    left
    rw [kind?_addBlock, if_pos rfl]
  have drawn := made.andThen (addEdge loop (made.within.passable leaves) enters) [graph.size]
    (by simp)
  exact drawn.weaken (Subset.refl _) (by simp)

theorem forkOff (loop : Option LoopTargets) {source : BlockId} (leaves : graph.Passable source) :
    Leads loop [] graph [source] (Drawn.fork graph source) [graph.size] := by
  have forked := fork loop leaves
  refine ⟨forked.strokes, ?_, forked.made⟩
  intro block isOpen
  rw [mem_singleton.mp isOpen]
  have edge : (source, graph.size) ∈ (Drawn.fork graph source).edges := by
    simp [Nat.le_of_lt leaves.lt_size]
  exact ⟨graph.size, .step edge (.refl _ _), .inr (mem_singleton_self _)⟩

end Leads

end FlowGraph

namespace Drawn

open FlowGraph

variable {loop : Option LoopTargets} {graph middle : FlowGraph} {opens between : List BlockId}
  {placed more : List Element}

structure Shaped (drawn : Drawn) (loop : Option LoopTargets) (placed : List Element)
    (graph : FlowGraph) (opens : List BlockId) : Prop where
  leads : Leads loop placed graph opens drawn.graph drawn.ending.toList
  ending : ∀ block, drawn.ending = some block → drawn.graph.kind? block = some .normal

theorem Shaped.after {drawn : Drawn} (later : drawn.Shaped loop more middle between)
    (first : Leads loop placed graph opens middle between) :
    drawn.Shaped loop (placed ++ more) graph opens :=
  ⟨first.trans later.leads, later.ending⟩

theorem Shaped.placing {drawn : Drawn} (shaped : drawn.Shaped loop placed graph opens)
    (same : placed = more) : drawn.Shaped loop more graph opens :=
  same ▸ shaped

theorem shaped_of_leads {result : FlowGraph} {block : BlockId}
    (leads : Leads loop placed graph opens result [block])
    (isNormal : result.kind? block = some .normal) :
    Shaped ⟨result, some block⟩ loop placed graph opens := by
  refine ⟨leads, ?_⟩
  rintro _ ⟨rfl⟩
  exact isNormal

structure Hosts (graph : FlowGraph) (loop : Option LoopTargets) : Prop where
  exit : graph.kind? FlowGraph.exit = some .exit
  header : ∀ targets, loop = some targets → graph.kind? targets.header = some .loopHeader
  after : ∀ targets, loop = some targets → graph.kind? targets.after = some .normal

theorem Hosts.within {result : FlowGraph} (hosts : Hosts graph loop)
    (within : graph.Within result) : Hosts result loop where
  exit := within.kind _ _ hosts.exit
  header targets isLoop := within.kind _ _ (hosts.header targets isLoop)
  after targets isLoop := within.kind _ _ (hosts.after targets isLoop)

theorem jumpsTo_jumpTarget (loop : Option LoopTargets) (form : SimpleStmt) :
    JumpsTo loop (jumpTarget loop form) := by
  unfold jumpTarget
  cases loop with
  | none => split <;> exact .inl rfl
  | some targets =>
    split
    · exact .inr ⟨targets, rfl, .inr rfl⟩
    · exact .inr ⟨targets, rfl, .inl rfl⟩
    · exact .inl rfl

theorem Hosts.enters (hosts : Hosts graph loop) {block : BlockId} (jumps : JumpsTo loop block) :
    graph.Passable block ∨ graph.kind? block = some .exit := by
  obtain rfl | ⟨targets, isLoop, rfl | rfl⟩ := jumps
  · exact .inr hosts.exit
  · exact .inl (.inr (hosts.header targets isLoop))
  · exact .inl (.inl (hosts.after targets isLoop))

theorem shaped_addElement (loop : Option LoopTargets) {current : BlockId}
    (isNormal : graph.kind? current = some .normal) {element : Element}
    (noLoop : element.isLoop = false) :
    Shaped ⟨graph.addElement current element, some current⟩ loop [element] graph [current] := by
  have added := Leads.addElement isNormal noLoop loop [current]
  exact shaped_of_leads added (added.within.kind _ _ isNormal)

theorem normal_of_some {start : BlockId} (isNormal : graph.kind? start = some .normal) :
    ∀ block, some start = some block → graph.kind? block = some .normal := by
  rintro _ ⟨rfl⟩
  exact isNormal

theorem kind?_fork_size (graph : FlowGraph) (source : BlockId) :
    (fork graph source).kind? graph.size = some .normal := by
  rw [fork, kind?_addEdge, kind?_addBlock, if_pos rfl]

theorem kind?_enterLoop (graph : FlowGraph) (current : Nat) (element : Element) :
    (enterLoop graph current element).kind? graph.size = some .loopHeader ∧
      (enterLoop graph current element).kind? (graph.size + 1) = some .normal ∧
      (enterLoop graph current element).kind? (graph.size + 2) = some .normal := by
  have different : graph.size ≠ graph.size + 1 + 1 := by omega
  simp [enterLoop, fork, kind?_addBlock, different]

theorem hosts_loop {header after : BlockId} (isExit : graph.kind? exit = some .exit)
    (isHeader : graph.kind? header = some .loopHeader)
    (isAfter : graph.kind? after = some .normal) : Hosts graph (some ⟨header, after⟩) := by
  refine ⟨isExit, ?_, ?_⟩
  · rintro _ ⟨rfl⟩
    exact isHeader
  · rintro _ ⟨rfl⟩
    exact isAfter

theorem shaped_meet (loop : Option LoopTargets) {thenEnding elseEnding : Option BlockId}
    (thenNormal : ∀ block, thenEnding = some block → graph.kind? block = some .normal)
    (elseNormal : ∀ block, elseEnding = some block → graph.kind? block = some .normal) :
    (meet graph thenEnding elseEnding).Shaped loop [] graph
      (thenEnding.toList ++ elseEnding.toList) := by
  unfold meet
  split
  · next both =>
      rw [Bool.and_eq_true, Option.isNone_iff_eq_none, Option.isNone_iff_eq_none] at both
      rw [both.1, both.2]
      exact ⟨.refl loop graph [], by simp⟩
  · have made := (Leads.addBlock loop graph).frame (thenEnding.toList ++ elseEnding.toList)
    have joins : (graph.addBlock .normal).kind? graph.size = some .normal := by
      rw [kind?_addBlock, if_pos rfl]
    have fromThen := Leads.addEdgeFrom loop
      (fun block ends => made.within.kind _ _ (thenNormal block ends)) (.inl joins)
    have stillJoins := fromThen.within.kind _ _ joins
    have fromElse := Leads.addEdgeFrom loop
      (fun block ends => fromThen.within.kind _ _ (made.within.kind _ _ (elseNormal block ends)))
      (.inl stillJoins)
    have drawn := (made.andThen fromThen (graph.size :: elseEnding.toList) (by grind)).andThen
      fromElse [graph.size] (by grind)
    exact shaped_of_leads (drawn.weaken (by simp) (by simp)) (fromElse.within.kind _ _ stillJoins)

theorem leads_enterLoop (loop : Option LoopTargets) {current : Nat}
    (isNormal : graph.kind? current = some .normal) {stmt : Stmt} (isLoop : stmt.isLoop = true) :
    Leads loop [.stmt stmt] graph [current] (enterLoop graph current (.stmt stmt))
      [graph.size, graph.size + 1, graph.size + 2] := by
  let headed := (graph.addBlock .loopHeader).addElement graph.size (.stmt stmt)
  have sizeHeaded : headed.size = graph.size + 1 := by simp [headed]
  have isHeader : headed.kind? graph.size = some .loopHeader := by
    rw [kind?_addElement, kind?_addBlock, if_pos rfl]
  have made : Leads loop [.stmt stmt] graph [] headed [graph.size] := by
    refine ⟨(Stroke.header graph isLoop).strokes, by simp, ?_⟩
    intro block isNew inRange
    rw [sizeHeaded] at inRange
    apply leadsOn_of_mem
    rw [mem_singleton]
    exact Nat.le_antisymm (Nat.le_of_lt_succ inRange) isNew
  have entered := Leads.addEdge loop (.inl (made.within.kind _ _ isNormal))
    (.inr isHeader : headed.Passable graph.size)
  have withAfter := Leads.addBlock loop (headed.addEdge current graph.size)
  have forked := Leads.fork loop (withAfter.within.passable
    (entered.within.passable (.inr isHeader : headed.Passable graph.size)))
  simp only [size_addEdge, size_addBlock, sizeHeaded] at withAfter forked
  have headerOpen := (made.frame [current]).andThen entered [graph.size] (by simp)
  have afterOpen := headerOpen.andThen withAfter [graph.size] (by simp)
  have bodyOpen := afterOpen.andThen forked [graph.size, graph.size + 1] (by simp)
  rw [enterLoop, addElement_addEdge]
  exact bodyOpen.weaken (by simp) (by grind)

theorem shaped_loop (hosts : Hosts graph loop) {current : Nat}
    (isNormal : graph.kind? current = some .normal) {stmt : Stmt} (isLoop : stmt.isLoop = true)
    {body last : Drawn}
    (bodyShaped : Hosts (enterLoop graph current (.stmt stmt))
        (some ⟨graph.size, graph.size + 1⟩) →
      (enterLoop graph current (.stmt stmt)).kind? (graph.size + 2) = some .normal →
      body.Shaped (some ⟨graph.size, graph.size + 1⟩) placed
        (enterLoop graph current (.stmt stmt)) [graph.size + 2])
    (lastShaped : Hosts (body.graph.addEdgeFrom body.ending graph.size) loop →
      (body.graph.addEdgeFrom body.ending graph.size).kind? graph.size = some .loopHeader →
      (body.graph.addEdgeFrom body.ending graph.size).kind? (graph.size + 1) = some .normal →
      last.Shaped loop more (body.graph.addEdgeFrom body.ending graph.size)
        [graph.size, graph.size + 1]) :
    last.Shaped loop (.stmt stmt :: (placed ++ more)) graph [current] := by
  have entered := leads_enterLoop loop isNormal isLoop
  obtain ⟨isHeader, isAfter, isStart⟩ := kind?_enterLoop graph current (.stmt stmt)
  have suite := bodyShaped (hosts_loop (hosts.within entered.within).exit isHeader isAfter) isStart
  have within := suite.leads.within
  have closed := Leads.addEdgeFrom loop suite.ending
    (.inr (within.kind _ _ isHeader) : body.graph.Passable graph.size)
  have drawn := (entered.andThen (suite.leads.leaveLoop loop) [graph.size, graph.size + 1]
    (by simp)).andThen closed [graph.size, graph.size + 1] (by grind)
  have rest := lastShaped (hosts.within drawn.within)
    (closed.within.kind _ _ (within.kind _ _ isHeader))
    (closed.within.kind _ _ (within.kind _ _ isAfter))
  exact (rest.after (drawn.weaken (Subset.refl _) (by simp))).placing (by simp)

end Drawn

open FlowGraph Drawn

theorem Stmt.drawElse_shaped {loop : Option LoopTargets} {orelse : List Stmt} {graph : FlowGraph}
    {header after : Nat}
    (suite : ∀ {graph : FlowGraph} {current : Nat}, Hosts graph loop →
      graph.kind? current = some .normal → (Stmt.drawAll loop orelse (some current) graph).Shaped
        loop (Stmt.ownElementsOfAll orelse) graph [current])
    (hosts : Hosts graph loop) (isHeader : graph.kind? header = some .loopHeader)
    (isAfter : graph.kind? after = some .normal) :
    (Stmt.drawElse loop orelse header after graph).Shaped loop (Stmt.ownElementsOfAll orelse) graph
      [header, after] := by
  cases orelse with
  | nil =>
    rw [Stmt.drawElse, Stmt.ownElementsOfAll]
    have closed := Leads.addEdge loop (.inr isHeader) (.inl isAfter : Passable _ after)
    exact shaped_of_leads ((closed.frame [after]).weaken (by simp) (by simp))
      (closed.within.kind _ _ isAfter)
  | cons =>
    rw [Stmt.drawElse]
    have forked := Leads.forkOff loop (.inr isHeader : Passable _ header)
    have drawn := (suite (hosts.within forked.within) (kind?_fork_size graph header)).after forked
    rw [Stmt.drawAll] at drawn
    have stillAfter := drawn.leads.within.kind _ _ isAfter
    have closed := Leads.addEdgeFrom loop drawn.ending (.inl stillAfter : Passable _ after)
    refine Shaped.placing (shaped_of_leads ?_ (closed.within.kind _ _ stillAfter)) (append_nil _)
    exact ((drawn.leads.frame [after]).trans (closed.frame [after])).weaken (by simp) (by simp)

mutual

theorem Stmt.draw_shaped : ∀ (stmt : Stmt) (loop : Option LoopTargets) (current : Nat)
    (graph : FlowGraph), Stmt.TryFree [stmt] → Hosts graph loop →
    graph.kind? current = some .normal →
    (stmt.draw loop current graph).Shaped loop stmt.ownElements graph [current]
  | .simple mark form, loop, current, _, _, hosts, isNormal => by
    rw [Stmt.draw]
    have added := Leads.addElement isNormal
      (rfl : (Element.stmt (.simple mark form)).isLoop = false) loop [current]
    split
    · have jumps := jumpsTo_jumpTarget loop form
      refine ⟨added.trans (Leads.addJump (.inl ?_) ?_ jumps), by simp⟩
      · rw [kind?_addElement]
        exact isNormal
      · exact (hosts.within added.within).enters jumps
    · exact shaped_addElement loop isNormal rfl
  | .branch mark test body orelse, loop, current, graph, free, hosts, isNormal => by
    rw [Stmt.draw, Stmt.ownElements]
    have added := Leads.addElement isNormal
      (rfl : (Element.stmt (.branch mark test body orelse)).isLoop = false) loop [current]
    have leaves := added.within.kind _ _ isNormal
    have forked := Leads.fork loop (.inl leaves : Passable _ current)
    have isStart := Drawn.kind?_fork_size
      (graph.addElement current (.stmt (.branch mark test body orelse))) current
    have thenShaped := Stmt.drawAll_shaped body loop (some _) _
      (free.suite (by simp [Stmt.suites])) ((hosts.within added.within).within forked.within)
      (normal_of_some isStart)
    have thenLeads := (added.trans (forked.frame [current])).trans
      (thenShaped.leads.frame [current])
    have stillNormal := thenLeads.within.kind _ _ isNormal
    split
    · next isEmpty =>
        -- with no else suite the current block itself goes on to the join
        obtain rfl := List.isEmpty_iff.mp isEmpty
        exact (shaped_meet loop thenShaped.ending (normal_of_some stillNormal)).after thenLeads
    · have elseForked := Leads.forkOff loop (.inl stillNormal : Passable _ current)
      have elseShaped := Stmt.drawAll_shaped orelse loop (some _) _
        (free.suite (by simp [Stmt.suites]))
        ((hosts.within thenLeads.within).within elseForked.within)
        (normal_of_some (kind?_fork_size _ current))
      have elseLeads := elseForked.trans elseShaped.leads
      have thenNormal := fun block ends =>
        elseLeads.within.kind _ _ (thenShaped.ending block ends)
      have whole := thenLeads.trans (elseLeads.frameLeft _)
      exact ((shaped_meet loop thenNormal elseShaped.ending).after whole).placing (by simp)
  | .forLoop _ _ _ _ body orelse, loop, _, _, free, hosts, isNormal
  | .whileLoop _ _ body orelse, loop, _, _, free, hosts, isNormal => by
    rw [Stmt.draw, Stmt.ownElements]
    exact shaped_loop hosts isNormal rfl
      (fun inside isStart => Stmt.drawAll_shaped body _ (some _) _
        (free.suite (by simp [Stmt.suites])) inside (normal_of_some isStart))
      (Stmt.drawElse_shaped fun outside isStart => Stmt.drawAll_shaped orelse loop (some _) _
        (free.suite (by simp [Stmt.suites])) outside (normal_of_some isStart))
  | .withBlock mark items isAsync body, loop, current, _, free, hosts, isNormal => by
    rw [Stmt.draw]
    have added := Leads.addElement isNormal
      (rfl : (Element.stmt (.withBlock mark items isAsync body)).isLoop = false) loop [current]
    exact (Stmt.drawAll_shaped body loop (some current) _ (free.suite (by simp [Stmt.suites]))
      (hosts.within added.within) (normal_of_some (added.within.kind _ _ isNormal))).after added
  | .matchOn mark subject cases, loop, current, graph, free, hosts, isNormal => by
    rw [Stmt.draw]
    have added := Leads.addElement isNormal
      (rfl : (Element.stmt (.matchOn mark subject cases)).isLoop = false) loop [current]
    have leaves := added.within.kind _ _ isNormal
    have forked := Leads.forkOff loop (.inl leaves : Passable _ current)
    have isAfter := Drawn.kind?_fork_size
      (graph.addElement current (.stmt (.matchOn mark subject cases))) current
    have clauses := MatchCase.drawAll_leads cases loop current _ _
      (fun clause isIn => free.suite (mem_map_of_mem isIn))
      ((hosts.within added.within).within forked.within) (forked.within.kind _ _ leaves) isAfter
    exact shaped_of_leads ((added.trans forked).trans clauses) (clauses.within.kind _ _ isAfter)
  | .functionDef _ _, loop, _, _, _, _, isNormal
  | .classDef _ _, loop, _, _, _, _, isNormal => by
    rw [Stmt.draw]
    exact shaped_addElement loop isNormal rfl
  | .tryBlock _ _ _ _ _, _, _, _, free, _, _ =>
    absurd (free _ (.here (mem_singleton_self _))) (by simp [Stmt.isTry])

theorem Stmt.drawAll_shaped : ∀ (body : List Stmt) (loop : Option LoopTargets)
    (current : Option Nat) (graph : FlowGraph), Stmt.TryFree body → Hosts graph loop →
    (∀ block, current = some block → graph.kind? block = some .normal) →
    (Stmt.drawAll loop body current graph).Shaped loop (Stmt.ownElementsOfAll body) graph
      current.toList
  | [], loop, _, graph, _, _, isNormal => by
    rw [Stmt.drawAll]
    exact ⟨.refl loop graph _, isNormal⟩
  | stmt :: rest, loop, some current, graph, free, hosts, isNormal => by
    rw [Stmt.drawAll]
    have first := Stmt.draw_shaped stmt loop current graph free.head hosts (isNormal current rfl)
    exact (Stmt.drawAll_shaped rest loop _ _ free.tail (hosts.within first.leads.within)
      first.ending).after first.leads
  | stmt :: rest, loop, none, graph, free, hosts, _ => by
    rw [Stmt.drawAll]
    have made := Leads.addBlock loop graph
    have first := (Stmt.draw_shaped stmt loop graph.size _ free.head (hosts.within made.within)
      (by rw [kind?_addBlock, if_pos rfl])).after made
    exact (Stmt.drawAll_shaped rest loop _ _ free.tail (hosts.within first.leads.within)
      first.ending).after first.leads

theorem MatchCase.drawAll_leads : ∀ (cases : List MatchCase) (loop : Option LoopTargets)
    (current after : Nat) (graph : FlowGraph), (∀ clause ∈ cases, Stmt.TryFree clause.body) →
    Hosts graph loop → graph.kind? current = some .normal → graph.kind? after = some .normal →
    Leads loop (MatchCase.ownElements cases) graph [after]
      (MatchCase.drawAll loop cases current after graph) [after]
  | [], loop, _, after, graph, _, _, _, _ => by
    rw [MatchCase.drawAll]
    exact .refl loop graph [after]
  | ⟨head, body⟩ :: rest, loop, current, after, graph, free, hosts, isNormal, isAfter => by
    rw [MatchCase.drawAll]
    have forked := Leads.fork loop (.inl isNormal : Passable _ current)
    have isStart := kind?_fork_size graph current
    have added := forked.trans (Leads.addElement isStart
      (rfl : (Element.case ⟨head, body⟩).isLoop = false) loop [graph.size])
    have suite := (Stmt.drawAll_shaped body loop (some graph.size) _
      (free ⟨head, body⟩ mem_cons_self) (hosts.within added.within)
      (normal_of_some (by rw [kind?_addElement]; exact isStart))).after added
    have stillAfter := suite.leads.within.kind _ _ isAfter
    have closed := Leads.addEdgeFrom loop suite.ending (.inl stillAfter : Passable _ after)
    have clause := ((suite.leads.frame [after]).trans (closed.frame [after])).weaken
      (Subset.refl _) (by simp : [after] ++ [after] ⊆ [after])
    rw [append_nil] at clause
    exact clause.trans (MatchCase.drawAll_leads rest loop current after _
      (fun clause isIn => free clause (mem_cons_of_mem _ isIn))
      (hosts.within clause.within) (clause.within.kind _ _ isNormal)
      (clause.within.kind _ _ isAfter))

end

theorem Stmt.graph_leads {body : List Stmt} (free : Stmt.TryFree body) :
    Leads none (Stmt.ownElementsOfAll body) (Drawn.fork .empty entry) [start]
      (Stmt.graph body) [] := by
  have hosts : Hosts (Drawn.fork .empty entry) none := ⟨rfl, by simp, by simp⟩
  have drawn := Stmt.drawAll_shaped body none (some start) _ free hosts
    (normal_of_some rfl)
  have isExit := (hosts.within drawn.leads.within).exit
  have whole := drawn.leads.trans (Leads.addJumpFrom drawn.ending (.inr isExit) (.inl rfl))
  rwa [append_nil] at whole

end PyStatic
