import PyStatic.Flow.Draw
import PyStatic.Flow.Liveness
import PyStatic.Proofs.Flow.Path

/-!
Contract: liveness is exact over the paths of a flow graph.

One visit keeps two facts. A block that does not wait satisfies its equations, since a changed
answer sends the predecessors back to the queue. And answers stay below every family of sets that is
closed under the equations. An empty queue turns the first fact into a solution; the second makes it
least.
-/

namespace PyStatic

open List FlowGraph

theorem Access.mem_before (access : Access) (live : SymbolSet) (symbol : SymbolId) :
    symbol ∈ access.before live ↔
      symbol ∈ access.reads ∨ (symbol ∈ live ∧ symbol ∉ access.writes) := by
  have notWritten : access.writes.contains symbol = false ↔ symbol ∉ access.writes := by
    rw [Std.ExtTreeSet.mem_iff_contains, Bool.not_eq_true]
  simp [Access.before, Std.ExtTreeSet.mem_union_iff, Std.ExtTreeSet.mem_filter, notWritten, or_comm]

namespace FlowProblem

/-- An element reads the variable, and none before it writes it. -/
def ReadsFirst (problem : FlowProblem) (symbol : SymbolId) (elements : List Element) : Prop :=
  ∃ earlier element later, elements = earlier ++ element :: later ∧
    symbol ∈ (problem.access element).reads ∧
    ∀ passed ∈ earlier, symbol ∉ (problem.access passed).writes

def Spares (problem : FlowProblem) (symbol : SymbolId) (elements : List Element) : Prop :=
  ∀ element ∈ elements, symbol ∉ (problem.access element).writes

/-- Some path from the start of the block reads the variable before it writes it. -/
def ReadAhead (problem : FlowProblem) (block : BlockId) (symbol : SymbolId) : Prop :=
  ∃ blocks last, problem.graph.Path block blocks last ∧
    problem.ReadsFirst symbol (problem.graph.elementsAlong blocks)

variable (problem : FlowProblem) {symbol : SymbolId}

theorem not_readsFirst_nil : ¬ problem.ReadsFirst symbol [] := by
  rintro ⟨earlier, element, later, split, -⟩
  simp at split

theorem readsFirst_cons_iff (first : Element) (rest : List Element) :
    problem.ReadsFirst symbol (first :: rest) ↔
      symbol ∈ (problem.access first).reads ∨
        (symbol ∉ (problem.access first).writes ∧ problem.ReadsFirst symbol rest) := by
  constructor
  · rintro ⟨earlier, element, later, split, reads, spared⟩
    cases earlier with
    | nil =>
      rw [nil_append, List.cons.injEq] at split
      exact .inl (split.1 ▸ reads)
    | cons _ tail =>
      rw [cons_append, List.cons.injEq] at split
      obtain ⟨rfl, same⟩ := split
      refine .inr ⟨spared first (mem_cons_self ..), tail, element, later, same, reads, ?_⟩
      exact fun passed isIn => spared passed (mem_cons_of_mem first isIn)
  · rintro (reads | ⟨spared, earlier, element, later, rfl, reads, others⟩)
    · exact ⟨[], first, rest, rfl, reads, fun _ isIn => absurd isIn (not_mem_nil)⟩
    · refine ⟨first :: earlier, element, later, rfl, reads, ?_⟩
      intro passed isIn
      rcases mem_cons.mp isIn with rfl | isIn
      · exact spared
      · exact others passed isIn

theorem readsFirst_append_iff (before after : List Element) :
    problem.ReadsFirst symbol (before ++ after) ↔
      problem.ReadsFirst symbol before ∨
        (problem.Spares symbol before ∧ problem.ReadsFirst symbol after) := by
  induction before with
  | nil => simp [not_readsFirst_nil, Spares]
  | cons _ _ ih =>
    rw [cons_append, readsFirst_cons_iff, ih, readsFirst_cons_iff]
    simp only [Spares, forall_mem_cons]
    tauto

theorem mem_beforeAll (elements : List Element) (live : SymbolSet) :
    symbol ∈ problem.beforeAll elements live ↔
      problem.ReadsFirst symbol elements ∨ (symbol ∈ live ∧ problem.Spares symbol elements) := by
  induction elements with
  | nil => simp [beforeAll, not_readsFirst_nil, Spares]
  | cons first rest ih =>
    have unfolded : problem.beforeAll (first :: rest) live =
        (problem.access first).before (problem.beforeAll rest live) := rfl
    rw [unfolded, Access.mem_before, ih, readsFirst_cons_iff]
    simp only [Spares, forall_mem_cons]
    tauto

theorem readAhead_iff (block : BlockId) :
    problem.ReadAhead block symbol ↔
      problem.ReadsFirst symbol (problem.graph.elements block) ∨
        (problem.Spares symbol (problem.graph.elements block) ∧
          ∃ next ∈ problem.graph.successors block, problem.ReadAhead next symbol) := by
  constructor
  · rintro ⟨blocks, last, path, reads⟩
    cases path with
    | here =>
      rw [elementsAlong, flatMap_singleton] at reads
      exact .inl reads
    | step edge rest =>
      next next blocks =>
      rw [elementsAlong, flatMap_cons, readsFirst_append_iff] at reads
      refine reads.imp id ?_
      rintro ⟨spared, readsLater⟩
      exact ⟨spared, next, edge, blocks, last, rest, readsLater⟩
  · rintro (reads | ⟨spared, next, edge, blocks, last, path, reads⟩)
    · refine ⟨[block], block, .here block, ?_⟩
      rw [elementsAlong, flatMap_singleton]
      exact reads
    · refine ⟨block :: blocks, last, .step edge path, ?_⟩
      rw [elementsAlong, flatMap_cons, readsFirst_append_iff]
      exact .inr ⟨spared, reads⟩

/-- The equations of liveness. -/
structure Solves (before after : BlockId → SymbolSet) : Prop where
  after_iff : ∀ block symbol, symbol ∈ after block ↔
    ∃ next ∈ problem.graph.successors block, symbol ∈ before next
  before_eq : ∀ block,
    before block = problem.beforeAll (problem.graph.elements block) (after block)

def Closed (sets : BlockId → SymbolId → Prop) : Prop :=
  ∀ block symbol, problem.ReadsFirst symbol (problem.graph.elements block) ∨
      (problem.Spares symbol (problem.graph.elements block) ∧
        ∃ next ∈ problem.graph.successors block, sets next symbol) → sets block symbol

theorem closed_readAhead : problem.Closed problem.ReadAhead :=
  fun block _ follows => (problem.readAhead_iff block).mpr follows

theorem Solves.before_iff {problem : FlowProblem} {before after : BlockId → SymbolSet}
    (solves : problem.Solves before after) (block : BlockId) (symbol : SymbolId) :
    symbol ∈ before block ↔ problem.ReadsFirst symbol (problem.graph.elements block) ∨
      (problem.Spares symbol (problem.graph.elements block) ∧
        ∃ next ∈ problem.graph.successors block, symbol ∈ before next) := by
  rw [solves.before_eq, mem_beforeAll, solves.after_iff, and_comm]

theorem Solves.closed {problem : FlowProblem} {before after : BlockId → SymbolSet}
    (solves : problem.Solves before after) :
    problem.Closed fun block symbol => symbol ∈ before block :=
  fun block symbol => (solves.before_iff block symbol).mpr

theorem Solves.mem_of_readAhead {problem : FlowProblem} {before after : BlockId → SymbolSet}
    (solves : problem.Solves before after) {block : BlockId} {symbol : SymbolId}
    (reads : problem.ReadAhead block symbol) : symbol ∈ before block := by
  obtain ⟨blocks, last, path, readsAlong⟩ := reads
  induction path with
  | here block =>
    rw [elementsAlong, flatMap_singleton] at readsAlong
    exact (solves.before_iff block symbol).mpr (.inl readsAlong)
  | @step block next _ _ edge _ ih =>
    rw [elementsAlong, flatMap_cons, readsFirst_append_iff] at readsAlong
    refine (solves.before_iff block symbol).mpr (readsAlong.imp id ?_)
    rintro ⟨spared, readsLater⟩
    exact ⟨spared, next, edge, ih readsLater⟩

end FlowProblem

namespace Liveness

variable {problem : FlowProblem}

theorem mem_joined (liveness : Liveness) (graph : FlowGraph) (block : BlockId)
    (symbol : SymbolId) :
    symbol ∈ liveness.joined graph block ↔
      ∃ next ∈ graph.successors block, symbol ∈ liveness.liveIn next := by
  have collected : ∀ (blocks : List BlockId) (live : SymbolSet),
      symbol ∈ blocks.foldl (fun live next => live ∪ liveness.liveIn next) live ↔
        symbol ∈ live ∨ ∃ next ∈ blocks, symbol ∈ liveness.liveIn next := by
    intro blocks
    induction blocks with
    | nil => simp
    | cons _ _ ih =>
      intro live
      rw [foldl_cons, ih, Std.ExtTreeSet.mem_union_iff]
      simp [or_assoc]
  rw [joined, collected]
  simp

theorem mem_enqueue (queue blocks : List BlockId) (block : BlockId) :
    block ∈ enqueue queue blocks ↔ block ∈ queue ∨ block ∈ blocks := by
  unfold enqueue
  induction blocks generalizing queue with
  | nil => simp
  | cons first _ ih =>
    rw [foldl_cons, ih]
    by_cases waits : queue.contains first
    · rw [if_pos waits]
      rw [contains_iff_mem] at waits
      grind
    · rw [if_neg waits]
      grind

def Holds (problem : FlowProblem) (liveness : Liveness) (block : BlockId) : Prop :=
  liveness.liveOut block = liveness.joined problem.graph block ∧
    liveness.liveIn block = problem.beforeAll (problem.graph.elements block)
      (liveness.joined problem.graph block)

def OthersHold (problem : FlowProblem) (queue : List BlockId) (liveness : Liveness) : Prop :=
  ∀ block, block ∉ queue → liveness.Holds problem block

def found (problem : FlowProblem) (liveness : Liveness) (block : BlockId) : SymbolSet :=
  problem.beforeAll (problem.graph.elements block) (liveness.joined problem.graph block)

section Visit

variable (problem) (block : BlockId) (queue : List BlockId) (liveness : Liveness)

theorem visit_of_eq (same : liveness.found problem block = liveness.liveIn block) :
    visit problem block queue liveness =
      (⟨liveness.before, liveness.after.insert block (liveness.joined problem.graph block)⟩,
        queue) :=
  if_pos (beq_iff_eq.mpr same)

theorem visit_of_ne (changed : liveness.found problem block ≠ liveness.liveIn block) :
    visit problem block queue liveness =
      (⟨liveness.before.insert block (liveness.found problem block),
          liveness.after.insert block (liveness.joined problem.graph block)⟩,
        enqueue queue (problem.graph.predecessors block)) :=
  if_neg fun same => changed (beq_iff_eq.mp same)

theorem getD_insert_block (sets : Std.ExtTreeMap BlockId SymbolSet) (live : SymbolSet)
    (other : BlockId) :
    (sets.insert block live).getD other ∅ = if other = block then live else sets.getD other ∅ := by
  simp only [Std.ExtTreeMap.getD_insert, Std.compare_eq_iff_eq, @eq_comm _ other block]

theorem liveIn_visit (other : BlockId) :
    (visit problem block queue liveness).1.liveIn other =
      if other = block then liveness.found problem block else liveness.liveIn other := by
  by_cases same : liveness.found problem block = liveness.liveIn block
  · rw [visit_of_eq problem block queue liveness same, same]
    by_cases isBlock : other = block
    · rw [if_pos isBlock, isBlock]
      rfl
    · rw [if_neg isBlock]
      rfl
  · rw [visit_of_ne problem block queue liveness same]
    exact getD_insert_block block liveness.before _ other

theorem liveOut_visit (other : BlockId) :
    (visit problem block queue liveness).1.liveOut other =
      if other = block then liveness.joined problem.graph block else liveness.liveOut other := by
  by_cases same : liveness.found problem block = liveness.liveIn block
  · rw [visit_of_eq problem block queue liveness same]
    exact getD_insert_block block liveness.after _ other
  · rw [visit_of_ne problem block queue liveness same]
    exact getD_insert_block block liveness.after _ other

theorem mem_visit_queue (other : BlockId) :
    other ∈ (visit problem block queue liveness).2 ↔
      other ∈ queue ∨ (liveness.found problem block ≠ liveness.liveIn block ∧
        other ∈ problem.graph.predecessors block) := by
  by_cases same : liveness.found problem block = liveness.liveIn block
  · rw [visit_of_eq problem block queue liveness same]
    simp [same]
  · rw [visit_of_ne problem block queue liveness same, mem_enqueue]
    simp [same]

theorem joined_visit {other : BlockId}
    (notWaiting : other ∉ (visit problem block queue liveness).2) :
    (visit problem block queue liveness).1.joined problem.graph other =
      liveness.joined problem.graph other := by
  apply Std.ExtTreeSet.ext_mem
  intro symbol
  rw [mem_joined, mem_joined]
  refine exists_congr fun next => and_congr_right fun edge => ?_
  rw [liveIn_visit]
  by_cases isBlock : next = block
  · -- `other` is a predecessor of the visited block, so the answer cannot have changed
    have isPredecessor : other ∈ problem.graph.predecessors block := by
      rw [mem_predecessors, ← isBlock]
      exact (mem_successors problem.graph other next).mp edge
    have unchanged : liveness.found problem block = liveness.liveIn block := by
      by_contra changed
      exact notWaiting ((mem_visit_queue problem block queue liveness other).mpr
        (.inr ⟨changed, isPredecessor⟩))
    rw [if_pos isBlock, unchanged, isBlock]
  · rw [if_neg isBlock]

theorem othersHold_visit (hold : liveness.OthersHold problem (block :: queue)) :
    (visit problem block queue liveness).1.OthersHold problem
      (visit problem block queue liveness).2 := by
  intro other notWaiting
  have sameJoined := joined_visit problem block queue liveness notWaiting
  rw [Holds, sameJoined, liveOut_visit, liveIn_visit]
  by_cases isBlock : other = block
  · rw [if_pos isBlock, if_pos isBlock, isBlock]
    exact ⟨rfl, rfl⟩
  · rw [if_neg isBlock, if_neg isBlock]
    refine hold other ?_
    rw [mem_cons, not_or]
    exact ⟨isBlock, fun waits => notWaiting
      ((mem_visit_queue problem block queue liveness other).mpr (.inl waits))⟩

theorem below_visit {sets : BlockId → SymbolId → Prop} (closed : problem.Closed sets)
    (below : ∀ block, ∀ symbol ∈ liveness.liveIn block, sets block symbol) :
    ∀ other, ∀ symbol ∈ (visit problem block queue liveness).1.liveIn other,
      sets other symbol := by
  intro other symbol isLive
  rw [liveIn_visit] at isLive
  by_cases isBlock : other = block
  · rw [if_pos isBlock, found, FlowProblem.mem_beforeAll, mem_joined] at isLive
    rw [isBlock]
    refine closed block symbol (isLive.imp id ?_)
    rintro ⟨⟨next, edge, liveNext⟩, spared⟩
    exact ⟨spared, next, edge, below next symbol liveNext⟩
  · rw [if_neg isBlock] at isLive
    exact below other symbol isLive

end Visit

theorem othersHold_solve (visits : Nat) (queue : List BlockId) (liveness : Liveness)
    (hold : liveness.OthersHold problem queue) :
    (solve problem visits queue liveness).1.OthersHold problem
      (solve problem visits queue liveness).2 := by
  induction visits generalizing queue liveness with
  | zero => cases queue <;> exact hold
  | succ _ ih =>
    cases queue with
    | nil => exact hold
    | cons block queue =>
      exact ih _ _ (othersHold_visit problem block queue liveness hold)

theorem below_solve {sets : BlockId → SymbolId → Prop} (closed : problem.Closed sets)
    (visits : Nat) (queue : List BlockId) (liveness : Liveness)
    (below : ∀ block, ∀ symbol ∈ liveness.liveIn block, sets block symbol) :
    ∀ block, ∀ symbol ∈ (solve problem visits queue liveness).1.liveIn block,
      sets block symbol := by
  induction visits generalizing queue liveness with
  | zero => cases queue <;> exact below
  | succ _ ih =>
    cases queue with
    | nil => exact below
    | cons block queue =>
      exact ih _ _ (below_visit problem block queue liveness closed below)

theorem not_mem_liveIn_empty (block : BlockId) (symbol : SymbolId) :
    symbol ∉ empty.liveIn block := by
  simp [empty, liveIn]

theorem othersHold_empty (problem : FlowProblem) :
    empty.OthersHold problem problem.graph.ids.reverse := by
  intro block notWaiting
  have outside : problem.graph.size ≤ block := by
    simpa [ids] using notWaiting
  have noElements := problem.graph.elements_of_size_le outside
  have nothing : empty.joined problem.graph block = ∅ := by
    apply Std.ExtTreeSet.ext_mem
    simp [mem_joined, not_mem_liveIn_empty]
  rw [Holds, nothing, noElements]
  exact ⟨by simp [empty, liveOut], by simp [empty, liveIn, FlowProblem.beforeAll]⟩

theorem solves_of_settled {visits : Nat}
    (settled : (solve problem visits problem.graph.ids.reverse .empty).2 = []) :
    problem.Solves (ofProblem problem visits).liveIn (ofProblem problem visits).liveOut := by
  have hold := othersHold_solve visits _ _ (othersHold_empty problem)
  rw [settled] at hold
  refine ⟨fun block symbol => ?_, fun block => ?_⟩
  · rw [ofProblem, (hold block (not_mem_nil)).1, mem_joined]
  · obtain ⟨sameOut, sameIn⟩ := hold block (not_mem_nil)
    rw [ofProblem, sameIn, sameOut]

theorem mem_of_closed {sets : BlockId → SymbolId → Prop} (closed : problem.Closed sets)
    (visits : Nat) {block : BlockId} {symbol : SymbolId}
    (isLive : symbol ∈ (ofProblem problem visits).liveIn block) : sets block symbol :=
  below_solve closed visits _ _
    (fun block symbol isLive => absurd isLive (not_mem_liveIn_empty block symbol))
    block symbol isLive

/-- A variable is live before a block exactly if some path from there reads it before writing it. -/
theorem liveIn_iff_readAhead (problem : FlowProblem) (visits : Nat)
    (settled : (solve problem visits problem.graph.ids.reverse .empty).2 = []) :
    (∀ block symbol, symbol ∈ (ofProblem problem visits).liveIn block ↔
      problem.ReadAhead block symbol) ∧
    (∀ block symbol, symbol ∈ (ofProblem problem visits).liveOut block ↔
      ∃ next ∈ problem.graph.successors block,
        symbol ∈ (ofProblem problem visits).liveIn next) ∧
    problem.Solves (ofProblem problem visits).liveIn (ofProblem problem visits).liveOut ∧
    ∀ before after, problem.Solves before after → ∀ block symbol,
      (symbol ∈ (ofProblem problem visits).liveIn block → symbol ∈ before block) ∧
      (symbol ∈ (ofProblem problem visits).liveOut block → symbol ∈ after block) := by
  have solves := solves_of_settled settled
  refine ⟨fun block symbol => ?_, solves.after_iff, solves, ?_⟩
  · exact ⟨mem_of_closed problem.closed_readAhead visits, solves.mem_of_readAhead⟩
  · intro before after others block symbol
    refine ⟨mem_of_closed others.closed visits, ?_⟩
    rw [solves.after_iff, others.after_iff]
    rintro ⟨next, edge, isLive⟩
    exact ⟨next, edge, mem_of_closed others.closed visits isLive⟩

def countdown : FlowProblem :=
  let mark (id start stop : Nat) : Mark := ⟨id, ⟨start, stop⟩⟩
  let name (id start : Nat) : Expr := .name ⟨mark id start (start + 1), "n"⟩
  let number (id start : Nat) : Expr := .literal (mark id start (start + 1)) .int "1" []
  ⟨Stmt.graph
      [.simple (mark 0 0 5) (.assign [name 1 0] (number 2 4)),
        .whileLoop (mark 3 6 21) (name 4 12)
          [.simple (mark 5 15 21) (.augmentedAssign (name 6 15) "-=" (number 7 20))] []], ∅,
    [⟨0, ⟨1, ⟨0, 1⟩, .assignmentTarget⟩⟩, ⟨0, ⟨4, ⟨12, 13⟩, .other⟩⟩,
      ⟨0, ⟨6, ⟨15, 16⟩, .compoundAssignmentTarget⟩⟩]⟩

theorem countdown_readAhead :
    (solve countdown 20 countdown.graph.ids.reverse .empty).2 = [] ∧
      countdown.ReadAhead 3 0 ∧ ¬ countdown.ReadAhead FlowGraph.entry 0 := by
  have settled : (solve countdown 20 countdown.graph.ids.reverse .empty).2 = [] := by
    decide +kernel
  have onPaths := (liveIn_iff_readAhead countdown 20 settled).1
  have atHeader : (ofProblem countdown 20).liveIn 3 = ({0} : SymbolSet) := by decide +kernel
  have atEntry : (ofProblem countdown 20).liveIn FlowGraph.entry = ∅ := by decide +kernel
  refine ⟨settled, (onPaths 3 0).mp ?_, fun reads => ?_⟩
  · rw [atHeader]
    decide +kernel
  · have isLive := (onPaths FlowGraph.entry 0).mpr reads
    rw [atEntry] at isLive
    exact Std.ExtTreeSet.not_mem_empty isLive

end Liveness

end PyStatic
