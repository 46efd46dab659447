import PyStatic.Proofs.Flow.Regular
import Mathlib.Logic.Relation

/-!
Contract: the loops of a flow graph.

The places of blocks do not tell which comes first, since the block after a loop is made before the
blocks of its body. But an edge that does not lead back to a header is drawn to a block that nothing
leaves yet, and such an edge closes no circle.
-/

namespace PyStatic

open List Relation

namespace FlowGraph

/-- An edge that does not lead back to a header from a later block. -/
def Forward (graph : FlowGraph) (source target : BlockId) : Prop :=
  (source, target) ∈ graph.edges ∧ ¬ (graph.kind? target = some .loopHeader ∧ target < source)

def Acyclic (graph : FlowGraph) : Prop :=
  ∀ block, ¬ TransGen graph.Forward block block

section Acyclic

variable {graph result : FlowGraph}

theorem Acyclic.mono (acyclic : graph.Acyclic)
    (isOld : ∀ source target, result.Forward source target → graph.Forward source target) :
    result.Acyclic :=
  fun block circle => acyclic block (TransGen.mono isOld _ _ circle)

/-- New edges to a block that nothing leaves close no circle. -/
theorem Acyclic.step (acyclic : graph.Acyclic) (target : BlockId)
    (isEnd : ∀ next, (target, next) ∉ result.edges)
    (isOld : ∀ source next, result.Forward source next →
      graph.Forward source next ∨ next = target) : result.Acyclic := by
  have before {first last : BlockId} (path : TransGen result.Forward first last) :
      TransGen graph.Forward first last ∨ last = target := by
    induction path with
    | single edge => exact (isOld _ _ edge).imp .single id
    | tail _ edge ih =>
      rcases ih with path | rfl
      · exact (isOld _ _ edge).imp path.tail id
      · exact absurd edge.1 (isEnd _)
  intro block circle
  rcases before circle with path | rfl
  · exact acyclic block path
  · obtain ⟨next, edge, -⟩ := TransGen.head'_iff.mp circle
    exact isEnd next edge.1

end Acyclic

def InBody (header stop block : Nat) : Prop :=
  header + 2 ≤ block ∧ block < stop

/-- The body is entered from its header alone, and only the body leads back. -/
structure Encloses (graph : FlowGraph) (header stop : Nat) : Prop where
  entered : ∀ source target : Nat, (source, target) ∈ graph.edges → InBody header stop target →
    source = header ∨ InBody header stop source
  closed : ∀ source : Nat, (source, header) ∈ graph.edges →
    source < header ∨ InBody header stop source

theorem Encloses.mem_path {graph : FlowGraph} {header stop first last : Nat}
    {blocks : List BlockId} (encloses : graph.Encloses header stop)
    (path : graph.Path first blocks last) (isOutside : ¬ InBody header stop first)
    (isInside : InBody header stop last) : header ∈ blocks := by
  induction path with
  | here => exact absurd isInside isOutside
  | @step block next _ _ edge _ ih =>
    by_cases isEntered : InBody header stop next
    · rcases encloses.entered block next ((mem_successors ..).mp edge) isEntered with rfl | isIn
      · exact mem_cons_self
      · exact absurd isIn isOutside
    · exact mem_cons_of_mem _ (ih isEntered isInside)

/-- Jumps lead to goals that nothing leaves yet, or back to headers. -/
structure Poised (graph : FlowGraph) (goals sources : BlockId → Prop) : Prop where
  acyclic : graph.Acyclic
  source_lt : ∀ source : Nat, sources source → source < graph.size
  goal_lt : ∀ goal : Nat, goals goal → goal < graph.size
  goal : ∀ goal : Nat, goals goal →
    graph.kind? goal = some .loopHeader ∧ (∀ source : Nat, sources source → goal < source) ∨
      ¬ sources goal ∧ ∀ next, (goal, next) ∉ graph.edges

/-- New edges leave sources or new blocks, and enter new blocks or goals. -/
structure Part (goals : BlockId → Prop) (graph : FlowGraph) (sources : BlockId → Prop)
    (result : FlowGraph) : Prop where
  ready : Poised graph goals sources
  size_le : graph.size ≤ result.size
  kind : ∀ block : Nat, block < graph.size → result.kind? block = graph.kind? block
  acyclic : result.Acyclic
  drawn : ∀ source target : Nat, (source, target) ∈ result.edges → (source, target) ∈ graph.edges ∨
    (sources source ∨ graph.size ≤ source) ∧ (graph.size ≤ target ∨ goals target)
  looped : ∀ header : Nat, graph.size ≤ header → result.kind? header = some .loopHeader →
    ∃ stop ≤ result.size, result.Encloses header stop

def GoesOn (graph : FlowGraph) (sources : BlockId → Prop) (result : FlowGraph)
    (next : BlockId → Prop) : Prop :=
  ∀ block : Nat, next block → (sources block ∨ graph.size ≤ block) ∧ block < result.size

variable {goals more sources next : BlockId → Prop} {graph middle result : FlowGraph}

theorem Poised.add (ready : Poised graph goals sources) {goal : BlockId}
    (inRange : goal < graph.size)
    (differs : ¬ sources goal) (isEnd : ∀ next, (goal, next) ∉ graph.edges) :
    Poised graph (fun block => goals block ∨ block = goal) sources where
  acyclic := ready.acyclic
  source_lt := ready.source_lt
  goal_lt := by
    rintro block (isGoal | rfl)
    · exact ready.goal_lt block isGoal
    · exact inRange
  goal := by
    rintro block (isGoal | rfl)
    · exact ready.goal block isGoal
    · exact .inr ⟨differs, isEnd⟩

namespace Part

theorem noEdges (part : Part goals graph sources result) {block : BlockId}
    (isOld : block < graph.size) (differs : ¬ sources block)
    (isEnd : ∀ next, (block, next) ∉ graph.edges) (next : BlockId) :
    (block, next) ∉ result.edges := by
  intro edge
  rcases part.drawn block next edge with isOldEdge | ⟨isSource | isNew, -⟩
  · exact isEnd next isOldEdge
  · exact differs isSource
  · exact absurd isOld (Nat.not_lt.mpr isNew)

theorem onwards (part : Part goals graph sources result)
    (continues : GoesOn graph sources result next) : Poised result goals next where
  acyclic := part.acyclic
  source_lt block isNext := (continues block isNext).2
  goal_lt goal isGoal := Nat.lt_of_lt_of_le (part.ready.goal_lt goal isGoal) part.size_le
  goal goal isGoal := by
    have isOld := part.ready.goal_lt goal isGoal
    rcases part.ready.goal goal isGoal with ⟨isHeader, isBefore⟩ | ⟨differs, isEnd⟩
    · refine .inl ⟨(part.kind goal isOld).trans isHeader, fun block isNext => ?_⟩
      rcases (continues block isNext).1 with isSource | isNew
      · exact isBefore block isSource
      · exact Nat.lt_of_lt_of_le isOld isNew
    · refine .inr ⟨fun isNext => ?_, part.noEdges isOld differs isEnd⟩
      rcases (continues goal isNext).1 with isSource | isNew
      · exact differs isSource
      · exact absurd isOld (Nat.not_lt.mpr isNew)

theorem encloses (later : Part more middle next result) {header stop : Nat}
    (isOlder : ∀ goal : Nat, more goal → goal < header + 2 ∧ goal ≠ header)
    (isHeader : header < middle.size) (within : stop ≤ middle.size)
    (encloses : middle.Encloses header stop) : result.Encloses header stop where
  entered source target edge isInside := by
    have inRange : target < middle.size := Nat.lt_of_lt_of_le isInside.2 within
    rcases later.drawn source target edge with isOld | ⟨-, isNew | isGoal⟩
    · exact encloses.entered source target isOld isInside
    · exact absurd inRange (Nat.not_lt.mpr isNew)
    · exact absurd isInside.1 (Nat.not_le.mpr (isOlder target isGoal).1)
  closed source edge := by
    rcases later.drawn source header edge with isOld | ⟨-, isNew | isGoal⟩
    · exact encloses.closed source isOld
    · exact absurd isHeader (Nat.not_lt.mpr isNew)
    · exact absurd rfl (isOlder header isGoal).2

/-- Goals that the earlier part made stand before its loops. -/
theorem trans (first : Part goals graph sources middle) (second : Part more middle next result)
    (continues : GoesOn graph sources middle next)
    (isKnown : ∀ goal : Nat, more goal → goals goal ∨ graph.size ≤ goal)
    (isOlder : ∀ header : Nat, graph.size ≤ header → middle.kind? header = some .loopHeader →
      ∀ goal : Nat, more goal → goal < header + 2 ∧ goal ≠ header) :
    Part goals graph sources result where
  ready := first.ready
  size_le := Nat.le_trans first.size_le second.size_le
  kind block isOld :=
    (second.kind block (Nat.lt_of_lt_of_le isOld first.size_le)).trans (first.kind block isOld)
  acyclic := second.acyclic
  drawn source target edge := by
    have grows := first.size_le
    rcases second.drawn source target edge with earlier | ⟨leaves, enters⟩
    · exact first.drawn source target earlier
    · refine .inr ⟨?_, ?_⟩
      · rcases leaves with isNext | isNew
        · exact (continues source isNext).1
        · exact .inr (Nat.le_trans grows isNew)
      · rcases enters with isNew | isGoal
        · exact .inl (Nat.le_trans grows isNew)
        · exact (isKnown target isGoal).symm
  looped header isNew isHeader := by
    by_cases isEarlier : header < middle.size
    · have isHeader := (second.kind header isEarlier).symm.trans isHeader
      obtain ⟨stop, within, encloses⟩ := first.looped header isNew isHeader
      exact ⟨stop, Nat.le_trans within second.size_le,
        second.encloses (isOlder header isNew isHeader) isEarlier within encloses⟩
    · exact second.looped header (Nat.le_of_not_lt isEarlier) isHeader

theorem andThen (first : Part goals graph sources middle) (second : Part goals middle next result)
    (continues : GoesOn graph sources middle next) : Part goals graph sources result := by
  refine first.trans second continues (fun _ isGoal => .inl isGoal) ?_
  intro header isNew _ goal isGoal
  have isOld := first.ready.goal_lt goal isGoal
  omega

theorem unchanged (ready : Poised graph goals sources) (size_le : graph.size ≤ result.size)
    (edges : result.edges = graph.edges)
    (kind : ∀ block : Nat, block < graph.size → result.kind? block = graph.kind? block)
    (noLoop : ∀ block : Nat, graph.size ≤ block → result.kind? block ≠ some .loopHeader) :
    Part goals graph sources result where
  ready := ready
  size_le := size_le
  kind := kind
  acyclic := ready.acyclic.mono fun source target edge => by
    have isEdge : (source, target) ∈ graph.edges := edges ▸ edge.1
    refine ⟨isEdge, ?_⟩
    rw [← kind target (lt_size_of_edge isEdge).2]
    exact edge.2
  drawn _ _ edge := .inl (edges ▸ edge)
  looped header isNew isHeader := absurd isHeader (noLoop header isNew)

theorem noHeader_of_size_le {block : BlockId} (isNew : graph.size ≤ block) :
    graph.kind? block ≠ some .loopHeader :=
  fun isHeader => absurd (lt_size_of_kind? isHeader) (Nat.not_lt.mpr isNew)

theorem noHeader_addBlock (block : Nat) (isNew : graph.size ≤ block) :
    (graph.addBlock .normal).kind? block ≠ some .loopHeader := by
  rw [kind?_addBlock]
  split
  · simp
  · exact noHeader_of_size_le isNew

theorem refl (ready : Poised graph goals sources) : Part goals graph sources graph :=
  unchanged ready (Nat.le_refl _) rfl (fun _ _ => rfl) fun _ => noHeader_of_size_le

theorem addElement (ready : Poised graph goals sources) (place : BlockId) (element : Element) :
    Part goals graph sources (graph.addElement place element) :=
  unchanged ready (by simp) (by simp) (fun _ _ => kind?_addElement ..) fun block isNew => by
    rw [kind?_addElement]
    exact noHeader_of_size_le isNew

theorem addBlock (ready : Poised graph goals sources) :
    Part goals graph sources (graph.addBlock .normal) :=
  unchanged ready (by simp) (by simp)
    (fun block isOld => by rw [kind?_addBlock, if_neg (Nat.ne_of_lt isOld)]) noHeader_addBlock

theorem addEdge (ready : Poised graph goals sources) {source target : Nat}
    (isSource : sources source) (isGoal : goals target) :
    Part goals graph sources (graph.addEdge source target) := by
  have isEdge {first last : BlockId} (edge : (first, last) ∈ (graph.addEdge source target).edges) :
      (first, last) ∈ graph.edges ∨ first = source ∧ last = target := by
    rw [mem_edges_addEdge, Prod.mk.injEq] at edge
    exact edge.imp_right And.right
  refine ⟨ready, by simp, fun _ _ => kind?_addEdge .., ?_, ?_, ?_⟩
  · rcases ready.goal target isGoal with ⟨isHeader, isBefore⟩ | ⟨differs, isEnd⟩
    · refine ready.acyclic.mono fun first last edge => ?_
      rw [Forward, kind?_addEdge] at edge
      rcases isEdge edge.1 with isOld | ⟨rfl, rfl⟩
      · exact ⟨isOld, edge.2⟩
      · exact absurd ⟨isHeader, isBefore _ isSource⟩ edge.2
    · refine ready.acyclic.step target (fun next edge => ?_) fun first last edge => ?_
      · rcases isEdge edge with isOld | ⟨rfl, -⟩
        · exact isEnd next isOld
        · exact differs isSource
      · rw [Forward, kind?_addEdge] at edge
        exact (isEdge edge.1).imp (⟨·, edge.2⟩) (·.2)
  · intro first last edge
    rcases isEdge edge with isOld | ⟨rfl, rfl⟩
    · exact .inl isOld
    · exact .inr ⟨.inl isSource, .inr isGoal⟩
  · intro header isNew
    rw [kind?_addEdge]
    exact fun isHeader => absurd isHeader (noHeader_of_size_le isNew)

theorem addEdgeFrom (ready : Poised graph goals sources) {ending : Option BlockId}
    {target : BlockId}
    (leaves : ∀ block, ending = some block → sources block) (isGoal : goals target) :
    Part goals graph sources (graph.addEdgeFrom ending target) := by
  cases ending with
  | none => exact refl ready
  | some source => exact addEdge ready (leaves source rfl) isGoal

theorem continues (part : Part goals graph sources result) : GoesOn graph sources result sources :=
  fun block isSource =>
    ⟨.inl isSource, Nat.lt_of_lt_of_le (part.ready.source_lt block isSource) part.size_le⟩

end Part

end FlowGraph

namespace Drawn

open FlowGraph

structure Follows (drawn : Drawn) (goals : BlockId → Prop) (graph : FlowGraph)
    (sources : BlockId → Prop) : Prop where
  part : Part goals graph sources drawn.graph
  ending : GoesOn graph sources drawn.graph (drawn.ending = some ·)

variable {goals more sources next : BlockId → Prop} {graph middle : FlowGraph} {drawn : Drawn}

theorem Follows.after (later : drawn.Follows goals middle next)
    (first : Part goals graph sources middle) (continues : GoesOn graph sources middle next) :
    drawn.Follows goals graph sources := by
  refine ⟨first.andThen later.part continues, fun block isEnding => ?_⟩
  obtain ⟨isNext | isNew, inRange⟩ := later.ending block isEnding
  · exact ⟨(continues block isNext).1, inRange⟩
  · exact ⟨.inr (Nat.le_trans first.size_le isNew), inRange⟩

theorem follows_addElement {current : BlockId} (ready : Poised graph goals (some current = some ·))
    (element : Element) :
    Follows ⟨graph.addElement current element, some current⟩ goals graph
      (some current = some ·) := by
  have added := Part.addElement ready current element
  exact ⟨added, added.continues⟩

theorem follows_withBlock {result : FlowGraph} (ready : Poised graph goals sources)
    (draws : Poised (graph.addBlock .normal)
        (fun block => goals block ∨ block = graph.size) sources →
      Part (fun block => goals block ∨ block = graph.size) (graph.addBlock .normal)
        sources result) :
    Follows ⟨result, some graph.size⟩ goals graph sources := by
  have added := Part.addBlock ready
  have isNew : ¬ sources graph.size :=
    fun isSource => absurd (ready.source_lt _ isSource) (Nat.lt_irrefl _)
  have later := draws ((added.onwards added.continues).add (by simp) isNew
    (by simp [noEdges_of_size_le]))
  refine ⟨added.trans later added.continues ?_
    fun header isNew isHeader => absurd isHeader (Part.noHeader_addBlock header isNew), ?_⟩
  · rintro goal (isGoal | rfl)
    · exact .inl isGoal
    · exact .inr (Nat.le_refl _)
  · rintro block ⟨rfl⟩
    exact ⟨.inr (Nat.le_refl _), Nat.lt_of_lt_of_le (by simp) later.size_le⟩

theorem Follows.forked {source : BlockId} (ready : Poised graph goals sources)
    (isSource : sources source)
    (draws : Poised (fork graph source) goals (some graph.size = some ·) →
      drawn.Follows goals (fork graph source) (some graph.size = some ·)) :
    drawn.Follows goals graph sources := by
  have forked : Follows ⟨fork graph source, some graph.size⟩ goals graph sources :=
    follows_withBlock ready fun ready => .addEdge ready isSource (.inr rfl)
  exact (draws (forked.part.onwards forked.ending)).after forked.part forked.ending

theorem Follows.addEdgeFrom (follows : drawn.Follows goals graph sources) {target : BlockId}
    (isGoal : goals target) :
    Part goals graph sources (drawn.graph.addEdgeFrom drawn.ending target) :=
  follows.part.andThen (.addEdgeFrom (follows.part.onwards follows.ending)
    (fun _ isEnding => isEnding) isGoal) follows.ending

theorem follows_meet {thenEnding elseEnding : Option BlockId}
    (part : Part goals graph sources middle)
    (continues : GoesOn graph sources middle fun block =>
      thenEnding = some block ∨ elseEnding = some block) :
    (meet middle thenEnding elseEnding).Follows goals graph sources := by
  unfold meet
  split
  · exact ⟨part, by rintro _ ⟨⟩⟩
  · refine (follows_withBlock (part.onwards continues) fun ready => ?_).after part continues
    have fromThen : Part _ _ _ ((middle.addBlock .normal).addEdgeFrom thenEnding middle.size) :=
      .addEdgeFrom ready (fun _ => .inl) (.inr rfl)
    exact fromThen.andThen (.addEdgeFrom (fromThen.onwards fromThen.continues) (fun _ => .inr)
      (.inr rfl)) fromThen.continues

section Loop

variable {current : Nat} (element : Element)

theorem mem_edges_enterLoop {source target : Nat}
    (edge : (source, target) ∈ (enterLoop graph current element).edges) :
    (source, target) ∈ graph.edges ∨ source = current ∧ target = graph.size ∨
      source = graph.size ∧ target = graph.size + 2 := by
  simp only [enterLoop, mem_edges_fork, edges_addBlock, edges_addElement, mem_edges_addEdge,
    size_addBlock, size_addElement, size_addEdge, Prod.mk.injEq] at edge
  exact (or_assoc.mp edge).imp_right (Or.imp And.right And.right)

theorem kind?_enterLoop_of_lt {block : Nat} (isOld : block < graph.size) :
    (enterLoop graph current element).kind? block = graph.kind? block := by
  have isFirst : block ≠ graph.size + 1 + 1 := by omega
  have isSecond : block ≠ graph.size + 1 := by omega
  simp [enterLoop, fork, kind?_addBlock, isFirst, isSecond, Nat.ne_of_lt isOld]

variable (ready : Poised graph goals (some current = some ·))

include ready

theorem acyclic_enterLoop : (enterLoop graph current element).Acyclic := by
  have isCurrent : current < graph.size := ready.source_lt current rfl
  let headed := (graph.addBlock .loopHeader).addEdge current graph.size
  have headedEdge {source target : Nat} (edge : (source, target) ∈ headed.edges) :
      (source, target) ∈ graph.edges ∨ source = current ∧ target = graph.size := by
    rw [mem_edges_addEdge, edges_addBlock, Prod.mk.injEq] at edge
    exact edge.imp_right And.right
  have headedAcyclic : headed.Acyclic := by
    refine ready.acyclic.step graph.size (fun next edge => ?_) fun source next edge => ?_
    · rcases headedEdge edge with isOld | ⟨same, -⟩
      · exact absurd (lt_size_of_edge isOld).1 (Nat.lt_irrefl _)
      · omega
    · rcases headedEdge edge.1 with isOld | ⟨-, same⟩
      · have isOther := Nat.ne_of_lt (lt_size_of_edge isOld).2
        exact .inl ⟨isOld, by simpa [headed, kind?_addBlock, isOther] using edge.2⟩
      · exact .inr same
  refine headedAcyclic.step (graph.size + 2) (fun next edge => ?_) fun source next edge => ?_
  · rcases mem_edges_enterLoop element edge with isOld | ⟨same, -⟩ | ⟨same, -⟩
    · have := (lt_size_of_edge isOld).1
      omega
    · omega
    · omega
  · rcases mem_edges_enterLoop element edge.1 with isOld | ⟨rfl, rfl⟩ | ⟨-, same⟩
    · have isBefore := (lt_size_of_edge isOld).2
      refine .inl ⟨by simp [headed, isOld], ?_⟩
      rw [Forward, kind?_enterLoop_of_lt element isBefore] at edge
      simpa [headed, kind?_addBlock, Nat.ne_of_lt isBefore] using edge.2
    · exact .inl ⟨by simp [headed, Nat.lt_succ_of_lt isCurrent],
        fun back => Nat.lt_asymm isCurrent back.2⟩
    · exact .inr same

theorem ready_body : Poised (enterLoop graph current element)
    (fun block => (goals block ∨ block = graph.size + 1) ∨ block = graph.size)
    (some (graph.size + 2) = some ·) := by
  have isCurrent : current < graph.size := ready.source_lt current rfl
  have size_eq : (enterLoop graph current element).size = graph.size + 3 := by simp [enterLoop]
  refine ⟨acyclic_enterLoop element ready, ?_, ?_, ?_⟩
  · rintro source ⟨rfl⟩
    omega
  · rintro goal ((isGoal | rfl) | rfl)
    · have := ready.goal_lt goal isGoal
      omega
    · omega
    · omega
  · rintro goal ((isGoal | rfl) | rfl)
    · have isOld := ready.goal_lt goal isGoal
      rw [kind?_enterLoop_of_lt element isOld]
      refine (ready.goal goal isGoal).imp ?_ ?_
      · rintro ⟨isHeader, -⟩
        refine ⟨isHeader, ?_⟩
        rintro source ⟨rfl⟩
        omega
      · rintro ⟨differs, isEnd⟩
        refine ⟨by rintro ⟨rfl⟩; omega, fun next edge => ?_⟩
        rcases mem_edges_enterLoop element edge with isOldEdge | ⟨rfl, -⟩ | ⟨rfl, -⟩
        · exact isEnd next isOldEdge
        · exact differs rfl
        · omega
    · refine .inr ⟨by simp, fun next edge => ?_⟩
      rcases mem_edges_enterLoop element edge with isOld | ⟨same, -⟩ | ⟨same, -⟩
      · have := (lt_size_of_edge isOld).1
        omega
      · omega
      · omega
    · refine .inl ⟨(kind?_enterLoop graph current element).1, ?_⟩
      rintro source ⟨rfl⟩
      omega

theorem follows_loop {body last : Drawn}
    (bodyFollows : body.Follows
      (fun block => (goals block ∨ block = graph.size + 1) ∨ block = graph.size)
      (enterLoop graph current element) (some (graph.size + 2) = some ·))
    (lastPart : Poised (body.graph.addEdgeFrom body.ending graph.size)
        (fun block => goals block ∨ block = graph.size + 1) (some graph.size = some ·) →
      Part (fun block => goals block ∨ block = graph.size + 1)
        (body.graph.addEdgeFrom body.ending graph.size) (some graph.size = some ·) last.graph)
    (isEnding : last.ending = some (graph.size + 1)) :
    last.Follows goals graph (some current = some ·) := by
  have isCurrent : current < graph.size := ready.source_lt current rfl
  have size_eq : (enterLoop graph current element).size = graph.size + 3 := by simp [enterLoop]
  obtain ⟨-, isAfter, isStart⟩ := kind?_enterLoop graph current element
  have closed := bodyFollows.addEdgeFrom (.inr rfl)
  generalize body.graph.addEdgeFrom body.ending graph.size = whole at closed lastPart
  have grows := closed.size_le
  have idle : Poised whole _ fun _ => False := closed.onwards fun _ never => never.elim
  have rest := lastPart ⟨closed.acyclic, by rintro source ⟨rfl⟩; omega,
    fun goal isGoal => idle.goal_lt goal (.inl isGoal), fun goal isGoal => by
      rcases idle.goal goal (.inl isGoal) with ⟨isHeader, -⟩ | ⟨-, isEnd⟩
      · rcases isGoal with isGoal | rfl
        · refine .inl ⟨isHeader, ?_⟩
          rintro source ⟨rfl⟩
          exact ready.goal_lt goal isGoal
        · rw [closed.kind _ (by omega), isAfter] at isHeader
          simp at isHeader
      · refine .inr ⟨?_, isEnd⟩
        rintro ⟨rfl⟩
        rcases isGoal with isGoal | same
        · exact absurd (ready.goal_lt _ isGoal) (Nat.lt_irrefl _)
        · simp at same⟩
  have restGrows := rest.size_le
  -- where an edge of the loop comes from, part by part
  have leaves {source target : Nat} (edge : (source, target) ∈ whole.edges) :
      ((source, target) ∈ graph.edges ∨ source = current ∧ target = graph.size ∨
        source = graph.size ∧ target = graph.size + 2) ∨
      InBody graph.size whole.size source ∧ (graph.size ≤ target ∨ goals target) := by
    rcases closed.drawn source target edge with isEntered | ⟨isNew, enters⟩
    · exact .inl (mem_edges_enterLoop element isEntered)
    · refine .inr ⟨⟨?_, (lt_size_of_edge edge).1⟩, ?_⟩
      · rcases isNew with isSource | isNew
        · exact Nat.le_of_eq (Option.some.inj isSource)
        · omega
      · rcases enters with isNew | (isGoal | rfl) | rfl
        · left; omega
        · exact .inr isGoal
        · left; omega
        · left; omega
  -- the blocks of the body close up behind the header before the last part is drawn
  have encloses : whole.Encloses graph.size whole.size := by
    refine ⟨fun source target edge inside => ?_, fun source edge => ?_⟩
    · rcases leaves edge with (isOld | ⟨-, rfl⟩ | ⟨rfl, -⟩) | ⟨isIn, -⟩
      · have := (lt_size_of_edge isOld).2
        have := inside.1
        omega
      · have := inside.1
        omega
      · exact .inl rfl
      · exact .inr isIn
    · rcases leaves edge with (isOld | ⟨rfl, -⟩ | ⟨-, same⟩) | ⟨isIn, -⟩
      · exact absurd (lt_size_of_edge isOld).2 (Nat.lt_irrefl _)
      · exact .inl isCurrent
      · omega
      · exact .inr isIn
  refine ⟨⟨ready, by omega, fun block isOld => ?_, rest.acyclic, ?_, ?_⟩, ?_⟩
  · rw [rest.kind block (by omega), closed.kind block (by omega), kind?_enterLoop_of_lt _ isOld]
  · intro source target edge
    rcases rest.drawn source target edge with isEarlier | ⟨isNew, enters⟩
    · rcases leaves isEarlier with (isOld | ⟨rfl, rfl⟩ | ⟨rfl, rfl⟩) | ⟨isIn, enters⟩
      · exact .inl isOld
      · exact .inr ⟨.inl rfl, .inl (Nat.le_refl _)⟩
      · exact .inr ⟨.inr (Nat.le_refl _), .inl (by omega)⟩
      · exact .inr ⟨.inr (Nat.le_trans (by omega) isIn.1), enters⟩
    · refine .inr ⟨.inr ?_, ?_⟩
      · rcases isNew with isSource | isNew
        · exact Nat.le_of_eq (Option.some.inj isSource)
        · omega
      · rcases enters with isNew | isGoal | rfl
        · left; omega
        · exact .inr isGoal
        · left; omega
  · intro header isNew isHeader
    have isOlder (goal : Nat) (isGoal : goals goal ∨ goal = graph.size + 1) :
        goal < graph.size + 2 ∧ goal ≠ graph.size := by
      rcases isGoal with isGoal | rfl
      · have := ready.goal_lt goal isGoal
        omega
      · omega
    by_cases isEarlier : header < whole.size
    · rw [rest.kind header isEarlier] at isHeader
      -- a header drawn so far is one of the body or the loop's own
      by_cases isInner : graph.size + 3 ≤ header
      · obtain ⟨stop, within, inner⟩ := closed.looped header (by omega) isHeader
        refine ⟨stop, by omega, rest.encloses (fun goal isGoal => ?_) isEarlier within inner⟩
        have := isOlder goal isGoal
        omega
      · rw [closed.kind header (by omega)] at isHeader
        obtain rfl | rfl | rfl : header = graph.size ∨ header = graph.size + 1 ∨
            header = graph.size + 2 := by omega
        · exact ⟨_, restGrows, rest.encloses isOlder isEarlier (Nat.le_refl _) encloses⟩
        · rw [isAfter] at isHeader
          simp at isHeader
        · rw [isStart] at isHeader
          simp at isHeader
    · exact rest.looped header (Nat.le_of_not_lt isEarlier) isHeader
  · intro block ends
    obtain rfl := Option.some.inj (isEnding.symm.trans ends)
    exact ⟨.inr (by omega), by omega⟩

end Loop

end Drawn

open FlowGraph Drawn

theorem Stmt.drawElse_part {goals : BlockId → Prop} {loop : Option LoopTargets} {orelse : List Stmt}
    {graph : FlowGraph} {header after : Nat}
    (suite : ∀ {graph : FlowGraph} {current : Nat}, Poised graph goals (some current = some ·) →
      (Stmt.drawAll loop orelse (some current) graph).Follows goals graph (some current = some ·))
    (ready : Poised graph goals (some header = some ·)) (isGoal : goals after) :
    Part goals graph (some header = some ·)
      (Stmt.drawElse loop orelse header after graph).graph := by
  cases orelse with
  | nil =>
    rw [Stmt.drawElse]
    exact .addEdge ready rfl isGoal
  | cons =>
    have drawn := Follows.forked ready rfl suite
    rw [Stmt.drawAll] at drawn
    rw [Stmt.drawElse]
    exact drawn.addEdgeFrom isGoal

mutual

theorem Stmt.draw_follows : ∀ (stmt : Stmt) (loop : Option LoopTargets) (goals : BlockId → Prop)
    (current : Nat) (graph : FlowGraph), (∀ goal, JumpsTo loop goal → goals goal) →
    Poised graph goals (some current = some ·) →
    (stmt.draw loop current graph).Follows goals graph (some current = some ·)
  | .simple mark form, loop, _, _, _, jumps, ready => by
    rw [Stmt.draw]
    have added := follows_addElement ready (.stmt (.simple mark form))
    split
    · exact ⟨added.addEdgeFrom (jumps _ (jumpsTo_jumpTarget loop form)), by rintro _ ⟨⟩⟩
    · exact added
  | .branch mark test body orelse, loop, goals, current, _, jumps, ready => by
    rw [Stmt.draw]
    have added := Part.addElement ready current (.stmt (.branch mark test body orelse))
    have thenDrawn := (Follows.forked (added.onwards added.continues) rfl
      (Stmt.drawAll_follows body loop goals (some _) _ jumps)).after added added.continues
    have restart := thenDrawn.part.continues
    dsimp only
    split
    · refine follows_meet thenDrawn.part ?_
      rintro block (isThen | isCurrent)
      · exact thenDrawn.ending block isThen
      · exact restart block isCurrent
    · have elseFollows := Follows.forked (thenDrawn.part.onwards restart) rfl
        (Stmt.drawAll_follows orelse loop goals (some _) _ jumps)
      have elseDrawn := elseFollows.after thenDrawn.part restart
      refine follows_meet elseDrawn.part ?_
      rintro block (isThen | isElse)
      · obtain ⟨isOpen, inRange⟩ := thenDrawn.ending block isThen
        exact ⟨isOpen, Nat.lt_of_lt_of_le inRange elseFollows.part.size_le⟩
      · exact elseDrawn.ending block isElse
  | .forLoop _ _ _ _ body orelse, loop, _, _, _, jumps, ready
  | .whileLoop _ _ body orelse, loop, _, _, _, jumps, ready => by
    rw [Stmt.draw]
    refine follows_loop _ ready (Stmt.drawAll_follows body _ _ (some _) _ ?_ (ready_body _ ready))
      (fun ready => Stmt.drawElse_part (fun ready => Stmt.drawAll_follows orelse loop _ (some _) _
        (fun goal isJump => .inl (jumps goal isJump)) ready) ready (.inr rfl)) ?_
    · rintro goal (rfl | ⟨_, ⟨rfl⟩, rfl | rfl⟩)
      · exact .inl (.inl (jumps _ (.inl rfl)))
      · exact .inr rfl
      · exact .inl (.inr rfl)
    · cases orelse <;> rw [Stmt.drawElse]
  | .withBlock mark items isAsync body, loop, goals, current, _, jumps, ready => by
    rw [Stmt.draw]
    have added := Part.addElement ready current (.stmt (.withBlock mark items isAsync body))
    exact (Stmt.drawAll_follows body loop goals (some current) _ jumps
      (added.onwards added.continues)).after added added.continues
  | .matchOn mark subject cases, loop, _, current, _, jumps, ready => by
    rw [Stmt.draw]
    have added := Part.addElement ready current (.stmt (.matchOn mark subject cases))
    refine (follows_withBlock (added.onwards added.continues) fun ready => ?_).after added
      added.continues
    have passed := Part.addEdge ready rfl (.inr rfl)
    exact passed.andThen (MatchCase.drawAll_part cases loop _ current _ _
      (fun goal isJump => .inl (jumps goal isJump)) (.inr rfl)
      (passed.onwards passed.continues)) passed.continues
  | .functionDef _ _, _, _, _, _, _, ready
  | .classDef _ _, _, _, _, _, _, ready
  | .tryBlock _ _ _ _ _, _, _, _, _, _, ready => by
    rw [Stmt.draw]
    exact follows_addElement ready _

theorem Stmt.drawAll_follows : ∀ (body : List Stmt) (loop : Option LoopTargets)
    (goals : BlockId → Prop) (current : Option Nat) (graph : FlowGraph),
    (∀ goal, JumpsTo loop goal → goals goal) → Poised graph goals (current = some ·) →
    (Stmt.drawAll loop body current graph).Follows goals graph (current = some ·)
  | [], _, _, _, _, _, ready => by
    rw [Stmt.drawAll]
    exact ⟨.refl ready, (Part.refl ready).continues⟩
  | stmt :: rest, loop, goals, some current, graph, jumps, ready => by
    rw [Stmt.drawAll]
    have first := Stmt.draw_follows stmt loop goals current graph jumps ready
    exact (Stmt.drawAll_follows rest loop goals _ _ jumps
      (first.part.onwards first.ending)).after first.part first.ending
  | stmt :: rest, loop, goals, none, graph, jumps, ready => by
    rw [Stmt.drawAll]
    have made : Follows ⟨graph.addBlock .normal, some graph.size⟩ goals graph (none = some ·) :=
      follows_withBlock ready fun ready => .refl ready
    have first := (Stmt.draw_follows stmt loop goals graph.size _ jumps
      (made.part.onwards made.ending)).after made.part made.ending
    exact (Stmt.drawAll_follows rest loop goals _ _ jumps
      (first.part.onwards first.ending)).after first.part first.ending

theorem MatchCase.drawAll_part : ∀ (cases : List MatchCase) (loop : Option LoopTargets)
    (goals : BlockId → Prop) (current after : Nat) (graph : FlowGraph),
    (∀ goal, JumpsTo loop goal → goals goal) → goals after →
    Poised graph goals (some current = some ·) →
    Part goals graph (some current = some ·) (MatchCase.drawAll loop cases current after graph)
  | [], _, _, _, _, _, _, _, ready => by
    rw [MatchCase.drawAll]
    exact .refl ready
  | ⟨head, body⟩ :: rest, loop, goals, current, after, graph, jumps, isGoal, ready => by
    rw [MatchCase.drawAll]
    have suite := Follows.forked ready rfl fun ready => by
      have added := Part.addElement ready graph.size (.case ⟨head, body⟩)
      exact (Stmt.drawAll_follows body loop goals (some graph.size) _ jumps
        (added.onwards added.continues)).after added added.continues
    have clause := suite.addEdgeFrom isGoal
    exact clause.andThen (MatchCase.drawAll_part rest loop goals current after _ jumps isGoal
      (clause.onwards clause.continues)) clause.continues

end

namespace FlowGraph

theorem mem_listed_mapIdx {list : Block → List BlockId} {change : BlockId → Block → Block}
    (keep : BlockId → BlockId → Bool)
    (kept : ∀ id block, list (change id block) = (list block).filter (keep id))
    (blocks : Array Block) (id other : BlockId) :
    other ∈ Block.listed list (blocks.mapIdx change) id ↔
      other ∈ Block.listed list blocks id ∧ keep id other = true := by
  unfold Block.listed
  rw [Array.getElem?_mapIdx]
  cases blocks[id]? with
  | none => simp
  | some block => simp [kept]

def withoutHeaderEdges (graph : FlowGraph) : FlowGraph where
  blocks := graph.blocks.mapIdx fun id block =>
    { block with
      successors := block.successors.filter fun next => graph.kind? next != some .loopHeader
      predecessors := block.predecessors.filter fun _ => graph.kind? id != some .loopHeader }
  mirrored source target := by
    rw [mem_listed_mapIdx (fun _ next => graph.kind? next != some .loopHeader) fun _ _ => rfl,
      mem_listed_mapIdx (fun id _ => graph.kind? id != some .loopHeader) fun _ _ => rfl,
      graph.mirrored source target]

/-- Every path from the entry to a block passes through another. -/
def Dominates (graph : FlowGraph) (header block : BlockId) : Prop :=
  ∀ blocks, graph.Path entry blocks block → header ∈ blocks

theorem exists_path_of_forward {graph : FlowGraph} {first last : BlockId}
    (forward : ReflTransGen graph.Forward first last) :
    ∃ blocks, graph.Path first blocks last ∧ ∀ block ∈ blocks,
      ReflTransGen graph.Forward first block ∧ ReflTransGen graph.Forward block last := by
  induction forward using ReflTransGen.head_induction_on with
  | refl => exact ⟨[last], .here last, by simp [ReflTransGen.refl]⟩
  | head edge rest ih =>
    obtain ⟨blocks, path, along⟩ := ih
    refine ⟨_ :: blocks, .step ((mem_successors ..).mpr edge.1) path, ?_⟩
    intro block isIn
    rcases mem_cons.mp isIn with rfl | isIn
    · exact ⟨.refl, .head edge rest⟩
    · exact ⟨.head edge (along block isIn).1, (along block isIn).2⟩

end FlowGraph

section Graph

variable (body : List Stmt)

theorem Stmt.graph_part :
    Part (JumpsTo none) .empty (some FlowGraph.entry = some ·) (Stmt.graph body) := by
  have ready : Poised .empty (JumpsTo none) (some FlowGraph.entry = some ·) := by
    refine ⟨fun block circle => ?_, ?_, ?_, ?_⟩
    · obtain ⟨next, edge, -⟩ := TransGen.head'_iff.mp circle
      exact absurd edge.1 not_mem_nil
    · rintro _ ⟨rfl⟩
      decide
    · rintro _ (rfl | ⟨_, ⟨⟩, -⟩)
      decide
    · rintro _ (rfl | ⟨_, ⟨⟩, -⟩)
      exact .inr ⟨by decide, fun next edge => absurd edge not_mem_nil⟩
  exact (Follows.forked ready rfl (Stmt.drawAll_follows body none _ (some _) _
    fun _ isJump => isJump)).addEdgeFrom (.inl rfl)

variable {body}

theorem Stmt.graph_dominates {block header : Nat} (edge : (block, header) ∈ (Stmt.graph body).edges)
    (isHeader : (Stmt.graph body).kind? header = some .loopHeader) (isBefore : header < block) :
    (Stmt.graph body).Dominates header block := by
  have part := Stmt.graph_part body
  have isNew : 2 ≤ header := by
    by_contra isOld
    rw [part.kind header (Nat.lt_of_not_le isOld)] at isHeader
    obtain rfl | rfl : header = 0 ∨ header = 1 := by omega
    · exact absurd isHeader (by decide)
    · exact absurd isHeader (by decide)
  obtain ⟨stop, -, encloses⟩ := part.looped header isNew isHeader
  have isInside := (encloses.closed block edge).resolve_left (Nat.lt_asymm isBefore)
  exact fun blocks path =>
    encloses.mem_path path (fun isIn => Nat.not_succ_le_zero _ isIn.1) isInside

theorem Stmt.graph_forward {first last : BlockId} {blocks : List BlockId}
    (path : (Stmt.graph body).Path first blocks last)
    (isReached : ReflTransGen (Stmt.graph body).Forward FlowGraph.entry first) :
    ReflTransGen (Stmt.graph body).Forward FlowGraph.entry last := by
  induction path with
  | here => exact isReached
  | @step block next _ _ edge _ ih =>
    have isEdge := (mem_successors ..).mp edge
    by_cases isBack : (Stmt.graph body).kind? next = some .loopHeader ∧ next < block
    · obtain ⟨blocks, path, along⟩ := exists_path_of_forward isReached
      exact ih (along next (Stmt.graph_dominates isEdge isBack.1 isBack.2 blocks path)).1
    · exact ih (isReached.tail ⟨isEdge, isBack⟩)

end Graph

theorem FunctionDef.flow?_of_noTry (function : FunctionDef)
    (noTry : ¬ ∃ stmt : Stmt, stmt.OccursIn function.body ∧ stmt.isTry = true) :
    function.flow? = some (Stmt.graph function.body) := by
  have free : Stmt.containTry function.body = false := by
    refine (Stmt.containTry_eq_false_iff function.body).mpr fun stmt occurs => ?_
    by_contra isTry
    exact noTry ⟨stmt, occurs, by simpa using isTry⟩
  rw [FunctionDef.flow?, free]
  rfl

theorem FunctionDef.seeking_noTry :
    ¬ ∃ stmt : Stmt, stmt.OccursIn FunctionDef.seeking.body ∧ stmt.isTry = true := by
  have free := (Stmt.containTry_eq_false_iff FunctionDef.seeking.body).mp (by decide)
  rintro ⟨stmt, occurs, isTry⟩
  exact absurd isTry (by simp [free stmt occurs])

/-- Without the edges that enter headers no block, reachable or not, leads back to itself. -/
theorem FunctionDef.circles_pass_headers (function : FunctionDef)
    (noTry : ¬ ∃ stmt : Stmt, stmt.OccursIn function.body ∧ stmt.isTry = true) :
    ∃ graph, function.flow? = some graph ∧
      ∀ block, ∀ next ∈ graph.withoutHeaderEdges.successors block,
      ¬ graph.withoutHeaderEdges.Reaches next block := by
  refine ⟨_, function.flow?_of_noTry noTry, ?_⟩
  rintro block next isNext ⟨blocks, path⟩
  have forward {first last : BlockId}
      (isNext : last ∈ (Stmt.graph function.body).withoutHeaderEdges.successors first) :
      (Stmt.graph function.body).Forward first last := by
    obtain ⟨isNext, noHeader⟩ := (mem_listed_mapIdx
      (fun _ next => (Stmt.graph function.body).kind? next != some .loopHeader)
      (fun _ _ => rfl) ..).mp isNext
    exact ⟨(mem_successors ..).mp isNext, fun isBack => by simp [isBack.1] at noHeader⟩
  have circle : TransGen (Stmt.graph function.body).Forward block block := by
    refine TransGen.head' (forward isNext) ?_
    clear isNext
    induction path with
    | here => exact .refl
    | step edge _ ih => exact .head (forward edge) ih
  exact (Stmt.graph_part function.body).acyclic block circle

theorem FunctionDef.seeking_circles : ∃ graph, FunctionDef.seeking.flow? = some graph ∧
    8 ∈ graph.successors 6 ∧ 6 ∈ graph.successors 8 ∧ 8 ∈ graph.withoutHeaderEdges.successors 6 ∧
      ¬ graph.withoutHeaderEdges.Reaches 8 6 := by
  obtain ⟨graph, drawn, acyclic⟩ := FunctionDef.circles_pass_headers FunctionDef.seeking
    FunctionDef.seeking_noTry
  obtain rfl : Stmt.graph FunctionDef.seeking.body = graph := Option.some.inj drawn
  exact ⟨_, drawn, by decide, by decide, by decide, acyclic 6 8 (by decide)⟩

/-- Edges to a dominating block are the back edges from later blocks. An edge by which a loop is
entered from before counts as a back edge as well, but its target does not dominate its source. -/
theorem FunctionDef.backEdge_iff_dominates (function : FunctionDef)
    (noTry : ¬ ∃ stmt : Stmt, stmt.OccursIn function.body ∧ stmt.isTry = true) :
    ∃ graph, function.flow? = some graph ∧ ∀ block header : Nat,
      graph.Reaches FlowGraph.entry block →
      (graph.hasBackEdge block header = true ∧ header < block ↔
        header ∈ graph.successors block ∧ graph.Dominates header block) := by
  refine ⟨_, function.flow?_of_noTry noTry, ?_⟩
  rintro block header ⟨_, path⟩
  rw [mem_successors]
  constructor
  · rintro ⟨isBack, isBefore⟩
    obtain ⟨isHeader, edge⟩ : (Stmt.graph function.body).kind? header = some .loopHeader ∧
        (block, header) ∈ (Stmt.graph function.body).edges := by
      simpa [FlowGraph.hasBackEdge] using isBack
    exact ⟨edge, Stmt.graph_dominates edge isHeader isBefore⟩
  · rintro ⟨edge, dominates⟩
    obtain ⟨blocks, forwardPath, along⟩ := exists_path_of_forward (Stmt.graph_forward path .refl)
    have onwards := (along header (dominates blocks forwardPath)).2
    -- an edge forwards would close a circle of such edges
    have isBack : (Stmt.graph function.body).kind? header = some .loopHeader ∧ header < block := by
      by_contra isForward
      exact (Stmt.graph_part function.body).acyclic header
        (TransGen.tail' onwards ⟨edge, isForward⟩)
    exact ⟨by simpa [FlowGraph.hasBackEdge, isBack.1] using edge, isBack.2⟩

theorem FunctionDef.seeking_dominates : ∃ graph, FunctionDef.seeking.flow? = some graph ∧
    graph.hasBackEdge 8 6 = true ∧ 6 ∈ graph.successors 8 ∧ graph.Dominates 6 8 := by
  obtain ⟨graph, drawn, exact'⟩ := FunctionDef.backEdge_iff_dominates FunctionDef.seeking
    FunctionDef.seeking_noTry
  obtain rfl : Stmt.graph FunctionDef.seeking.body = graph := Option.some.inj drawn
  have isReached : (Stmt.graph FunctionDef.seeking.body).Reaches FlowGraph.entry 8 :=
    ⟨[0, 2, 3, 5, 6, 8], .step (by decide) (.step (by decide) (.step (by decide)
      (.step (by decide) (.step (by decide) (.here 8)))))⟩
  exact ⟨_, drawn, by decide, (exact' 8 6 isReached).mp ⟨by decide, by decide⟩⟩

/-- The first loop is entered from block 2, which is reached before its header. -/
theorem FunctionDef.not_backEdge_dominates : ∃ graph, FunctionDef.seeking.flow? = some graph ∧
    graph.Reaches FlowGraph.entry 2 ∧ graph.hasBackEdge 2 3 = true ∧ ¬ graph.Dominates 3 2 := by
  have path : (Stmt.graph FunctionDef.seeking.body).Path FlowGraph.entry [0, 2] 2 :=
    .step (by decide) (.here 2)
  exact ⟨_, rfl, ⟨_, path⟩, by decide, fun dominates => absurd (dominates _ path) (by decide)⟩

end PyStatic
