import PyStatic.Proofs.Flow.DeadStores
import Mathlib.Data.List.Perm.Subperm

/-!
Contract: liveness under a limit on the visits of blocks.

The visits that may still come are bounded by the blocks that wait and, for each edge, by the
variables that its target has room for: only a growing target sends its sources back to the queue.
-/

namespace PyStatic

open List Liveness

namespace SymbolSet

theorem nodup_toList (symbols : SymbolSet) : symbols.toList.Nodup := by
  apply Std.ExtTreeSet.distinct_toList.imp
  intro first second different same
  exact different (Std.compare_eq_iff_eq.mpr same)

variable {smaller larger : SymbolSet}

theorem subperm_toList (within : ∀ symbol ∈ smaller, symbol ∈ larger) :
    smaller.toList.Subperm larger.toList := by
  apply subperm_of_subset (nodup_toList smaller)
  intro symbol isIn
  rw [Std.ExtTreeSet.mem_toList] at isIn ⊢
  exact within symbol isIn

theorem size_le (within : ∀ symbol ∈ smaller, symbol ∈ larger) : smaller.size ≤ larger.size := by
  simpa using (subperm_toList within).length_le

theorem size_lt (within : ∀ symbol ∈ smaller, symbol ∈ larger) (different : smaller ≠ larger) :
    smaller.size < larger.size := by
  by_contra notLess
  have notLonger : larger.toList.length ≤ smaller.toList.length := by
    simpa using notLess
  have same := (subperm_toList within).perm_of_length_le notLonger
  apply different
  apply Std.ExtTreeSet.ext_mem
  intro symbol
  simpa using same.mem_iff (a := symbol)

end SymbolSet

namespace FlowProblem

variable (problem : FlowProblem) {symbol : SymbolId}

theorem mem_readSymbols :
    symbol ∈ problem.readSymbols ↔
      ∃ element ∈ problem.graph.allElements, symbol ∈ (problem.access element).reads := by
  have collected (elements : List Element) (read : SymbolSet) :
      symbol ∈ elements.foldl (fun read element => read ∪ (problem.access element).reads) read ↔
        symbol ∈ read ∨ ∃ element ∈ elements, symbol ∈ (problem.access element).reads := by
    induction elements generalizing read with
    | nil => simp
    | cons _ _ ih =>
      rw [foldl_cons, ih, Std.ExtTreeSet.mem_union_iff]
      simp [or_assoc]
  rw [readSymbols, collected]
  simp

theorem mem_readSymbols_of_readsFirst {block : BlockId}
    (reads : problem.ReadsFirst symbol (problem.graph.elements block)) :
    symbol ∈ problem.readSymbols := by
  obtain ⟨earlier, element, later, split, isRead, -⟩ := reads
  have isElement : element ∈ problem.graph.elements block := by simp [split]
  have inRange : block < problem.graph.size := by
    by_contra outside
    rw [problem.graph.elements_of_size_le (Nat.le_of_not_lt outside)] at isElement
    simp at isElement
  apply problem.mem_readSymbols.mpr
  refine ⟨element, ?_, isRead⟩
  exact mem_flatMap.mpr ⟨block, List.mem_range.mpr inRange, isElement⟩

theorem closed_readSymbols : problem.Closed fun _ symbol => symbol ∈ problem.readSymbols := by
  intro block symbol follows
  rcases follows with reads | ⟨-, next, -, isRead⟩
  · exact problem.mem_readSymbols_of_readsFirst reads
  · exact isRead

theorem beforeAll_mono (elements : List Element) {live more : SymbolSet}
    (within : ∀ symbol ∈ live, symbol ∈ more) :
    ∀ symbol ∈ problem.beforeAll elements live, symbol ∈ problem.beforeAll elements more := by
  intro symbol isLive
  rw [mem_beforeAll] at isLive ⊢
  apply isLive.imp id
  rintro ⟨isAfter, spared⟩
  exact ⟨within symbol isAfter, spared⟩

end FlowProblem

namespace Liveness

variable {problem : FlowProblem} {first second third liveness : Liveness}

structure Below (first second : Liveness) : Prop where
  liveIn : ∀ block, ∀ symbol ∈ first.liveIn block, symbol ∈ second.liveIn block
  liveOut : ∀ block, ∀ symbol ∈ first.liveOut block, symbol ∈ second.liveOut block

theorem Below.refl (liveness : Liveness) : liveness.Below liveness :=
  ⟨fun _ _ isLive => isLive, fun _ _ isLive => isLive⟩

theorem Below.trans (earlier : first.Below second) (later : second.Below third) :
    first.Below third where
  liveIn block symbol isLive := later.liveIn block symbol (earlier.liveIn block symbol isLive)
  liveOut block symbol isLive := later.liveOut block symbol (earlier.liveOut block symbol isLive)

structure Rising (problem : FlowProblem) (liveness : Liveness) : Prop where
  liveIn : ∀ block, ∀ symbol ∈ liveness.liveIn block, symbol ∈ liveness.found problem block
  liveOut : ∀ block, ∀ symbol ∈ liveness.liveOut block,
    symbol ∈ liveness.joined problem.graph block

theorem Below.joined (below : first.Below second) (graph : FlowGraph) (block : BlockId) :
    ∀ symbol ∈ first.joined graph block, symbol ∈ second.joined graph block := by
  intro symbol isLive
  rw [mem_joined] at isLive ⊢
  obtain ⟨next, edge, isLive⟩ := isLive
  exact ⟨next, edge, below.liveIn next symbol isLive⟩

theorem Below.found (below : first.Below second) (problem : FlowProblem) (block : BlockId) :
    ∀ symbol ∈ first.found problem block, symbol ∈ second.found problem block :=
  problem.beforeAll_mono _ (below.joined problem.graph block)

theorem rising_empty (problem : FlowProblem) : empty.Rising problem := by
  constructor
  · intro block symbol isLive
    exact absurd isLive (not_mem_liveIn_empty block symbol)
  · intro block symbol isLive
    simp [empty, liveOut] at isLive

section Visit

variable (block : BlockId) (queue : List BlockId)

theorem Rising.below_visit (rising : liveness.Rising problem) :
    liveness.Below (visit problem block queue liveness).1 := by
  constructor
  · intro other symbol isLive
    rw [liveIn_visit]
    split
    · next isBlock => exact rising.liveIn block symbol (isBlock ▸ isLive)
    · exact isLive
  · intro other symbol isLive
    rw [liveOut_visit]
    split
    · next isBlock => exact rising.liveOut block symbol (isBlock ▸ isLive)
    · exact isLive

theorem Rising.visit (rising : liveness.Rising problem) :
    (visit problem block queue liveness).1.Rising problem := by
  have below := rising.below_visit block queue
  constructor
  · intro other symbol isLive
    apply below.found problem other
    rw [liveIn_visit] at isLive
    split at isLive
    · next isBlock => exact isBlock ▸ isLive
    · exact rising.liveIn other symbol isLive
  · intro other symbol isLive
    apply below.joined problem.graph other
    rw [liveOut_visit] at isLive
    split at isLive
    · next isBlock => exact isBlock ▸ isLive
    · exact rising.liveOut other symbol isLive

end Visit

theorem Rising.solve (rising : liveness.Rising problem) (visits : Nat) (queue : List BlockId) :
    (solve problem visits queue liveness).1.Rising problem ∧
      liveness.Below (solve problem visits queue liveness).1 := by
  induction visits generalizing queue liveness with
  | zero => cases queue <;> exact ⟨rising, .refl liveness⟩
  | succ _ ih =>
    cases queue with
    | nil => exact ⟨rising, .refl liveness⟩
    | cons block queue =>
      obtain ⟨risen, later⟩ := ih (rising.visit block queue)
        (Liveness.visit problem block queue liveness).2
      exact ⟨risen, (rising.below_visit block queue).trans later⟩

theorem solve_nil (visits : Nat) (liveness : Liveness) :
    solve problem visits [] liveness = (liveness, []) := by
  cases visits <;> rfl

theorem solve_add (visits more : Nat) (queue : List BlockId) (liveness : Liveness) :
    solve problem (visits + more) queue liveness =
      solve problem more (solve problem visits queue liveness).2
        (solve problem visits queue liveness).1 := by
  induction visits generalizing queue liveness with
  | zero => cases queue <;> simp [solve]
  | succ _ ih =>
    cases queue with
    | nil => simp only [solve_nil]
    | cons =>
      rw [Nat.succ_add]
      exact ih _ _

theorem solve_of_settled {visits limit : Nat} {queue : List BlockId}
    (settled : (solve problem visits queue liveness).2 = []) (enough : visits ≤ limit) :
    solve problem limit queue liveness = solve problem visits queue liveness := by
  obtain ⟨more, rfl⟩ := Nat.exists_eq_add_of_le enough
  rw [solve_add, settled, solve_nil, ← settled]

theorem ofProblem_below (problem : FlowProblem) {fewer limit : Nat} (isFewer : fewer ≤ limit) :
    (ofProblem problem fewer).Below (ofProblem problem limit) := by
  obtain ⟨more, rfl⟩ := Nat.exists_eq_add_of_le isFewer
  rw [ofProblem, ofProblem, solve_add]
  have stopped := ((rising_empty problem).solve fewer problem.graph.ids.reverse).1
  exact (stopped.solve more _).2

def room (problem : FlowProblem) (liveness : Liveness) (block : BlockId) : Nat :=
  problem.readSymbols.size - (liveness.liveIn block).size

def roomAlong (problem : FlowProblem) (liveness : Liveness) (edges : List FlowEdge) : Nat :=
  edges.foldr (fun edge total => liveness.room problem edge.2 + total) 0

def pending (problem : FlowProblem) (queue : List BlockId) (liveness : Liveness) : Nat :=
  queue.length + liveness.roomAlong problem problem.graph.edges

def Reading (problem : FlowProblem) (liveness : Liveness) : Prop :=
  ∀ block, ∀ symbol ∈ liveness.liveIn block, symbol ∈ problem.readSymbols

theorem reading_empty (problem : FlowProblem) : empty.Reading problem :=
  fun block symbol isLive => absurd isLive (not_mem_liveIn_empty block symbol)

theorem Reading.visit (reading : liveness.Reading problem) (block : BlockId)
    (queue : List BlockId) : (visit problem block queue liveness).1.Reading problem :=
  below_visit problem block queue liveness problem.closed_readSymbols reading

theorem length_enqueue_le (queue blocks : List BlockId) :
    (enqueue queue blocks).length ≤ queue.length + blocks.length := by
  unfold enqueue
  induction blocks generalizing queue with
  | nil => simp
  | cons block _ ih =>
    rw [foldl_cons, length_cons]
    have others := ih (if queue.contains block then queue else queue ++ [block])
    split at others
    · next waits =>
        rw [if_pos waits]
        omega
    · next waits =>
        rw [if_neg waits]
        rw [length_append, length_singleton] at others
        omega

theorem roomAlong_congr (same : ∀ block, second.room problem block = first.room problem block)
    (edges : List FlowEdge) : second.roomAlong problem edges = first.roomAlong problem edges := by
  simp [roomAlong, same]

theorem roomAlong_add_le {block : BlockId}
    (smaller : second.room problem block + 1 ≤ first.room problem block)
    (same : ∀ other, other ≠ block → second.room problem other = first.room problem other)
    (edges : List FlowEdge) :
    second.roomAlong problem edges + (edges.filter (·.2 == block)).length ≤
      first.roomAlong problem edges := by
  induction edges with
  | nil => simp [roomAlong]
  | cons edge _ ih =>
    simp only [roomAlong, foldr_cons] at ih ⊢
    by_cases isTarget : edge.2 = block
    · rw [filter_cons_of_pos (by simpa using isTarget), length_cons, isTarget]
      omega
    · rw [filter_cons_of_neg (by simpa using isTarget), same edge.2 isTarget]
      omega

section Visit

variable (block : BlockId) (queue : List BlockId)

theorem room_visit_lt (rising : liveness.Rising problem) (reading : liveness.Reading problem)
    (changed : liveness.found problem block ≠ liveness.liveIn block) :
    (visit problem block queue liveness).1.room problem block + 1 ≤
      liveness.room problem block := by
  have grown : (liveness.liveIn block).size < (liveness.found problem block).size :=
    SymbolSet.size_lt (rising.liveIn block) changed.symm
  have bounded := SymbolSet.size_le ((reading.visit block queue) block)
  rw [room, room]
  rw [liveIn_visit, if_pos rfl] at bounded ⊢
  omega

theorem room_visit_of_ne {block other : BlockId} (different : other ≠ block) :
    (visit problem block queue liveness).1.room problem other = liveness.room problem other := by
  rw [room, room, liveIn_visit, if_neg different]

theorem room_visit_of_eq (same : liveness.found problem block = liveness.liveIn block)
    (other : BlockId) :
    (visit problem block queue liveness).1.room problem other = liveness.room problem other := by
  rw [room, room, liveIn_visit, same]
  split
  · next isBlock => rw [isBlock]
  · rfl

theorem length_predecessors_le (graph : FlowGraph) (block : BlockId) :
    (graph.predecessors block).length ≤ (graph.edges.filter (·.2 == block)).length := by
  by_cases inRange : block ∈ graph.ids
  · have isPart : (graph.predecessors block).map (·, block) <+ graph.edges := by
      rw [FlowGraph.edges, flatMap_def]
      exact sublist_flatten_of_mem (mem_map_of_mem inRange)
    have within := isPart.filter fun edge => edge.2 == block
    rw [filter_eq_self.mpr (by simp)] at within
    simpa using within.length_le
  · rw [FlowGraph.ids, mem_range, Nat.not_lt] at inRange
    simp [FlowGraph.predecessors, Block.listed_of_size_le _ inRange]

theorem length_visit_queue (changed : liveness.found problem block ≠ liveness.liveIn block) :
    (visit problem block queue liveness).2.length ≤
      queue.length + (problem.graph.edges.filter (·.2 == block)).length := by
  have waiting := length_enqueue_le queue (problem.graph.predecessors block)
  have along := length_predecessors_le problem.graph block
  rw [visit_of_ne problem block queue liveness changed]
  exact Nat.le_trans waiting (Nat.add_le_add_left along _)

theorem pending_visit (rising : liveness.Rising problem) (reading : liveness.Reading problem) :
    pending problem (visit problem block queue liveness).2
        (visit problem block queue liveness).1 + 1 ≤
      pending problem (block :: queue) liveness := by
  rw [pending, pending, length_cons]
  by_cases same : liveness.found problem block = liveness.liveIn block
  · have shorter : (visit problem block queue liveness).2 = queue := by
      rw [visit_of_eq problem block queue liveness same]
    rw [shorter, roomAlong_congr (room_visit_of_eq block queue same)]
    omega
  · -- each predecessor that comes back is paid for by the room that an edge to the block loses
    have waiting := length_visit_queue block queue same
    have lost := roomAlong_add_le (room_visit_lt block queue rising reading same)
      (fun _ different => room_visit_of_ne queue different) problem.graph.edges
    omega

end Visit

theorem settled_of_pending_le (rising : liveness.Rising problem)
    (reading : liveness.Reading problem) {visits : Nat} {queue : List BlockId}
    (enough : pending problem queue liveness ≤ visits) :
    (solve problem visits queue liveness).2 = [] := by
  induction visits generalizing queue liveness with
  | zero =>
    have nothing : queue.length = 0 := by
      rw [pending] at enough
      omega
    rw [length_eq_zero_iff.mp nothing, solve_nil]
  | succ visits ih =>
    cases queue with
    | nil => rw [solve_nil]
    | cons block queue =>
      have fewer := pending_visit block queue rising reading
      have enoughLeft : pending problem (visit problem block queue liveness).2
          (visit problem block queue liveness).1 ≤ visits := by
        omega
      exact ih (rising.visit block queue) (reading.visit block queue) enoughLeft

/-- One visit for each block, and for each edge one for each variable read. -/
def enoughVisits (problem : FlowProblem) : Nat :=
  problem.graph.size + problem.readSymbols.size * problem.graph.edges.length

theorem pending_start (problem : FlowProblem) :
    pending problem problem.graph.ids.reverse empty = enoughVisits problem := by
  have nothing (block : BlockId) : empty.room problem block = problem.readSymbols.size := by
    simp [room, empty, liveIn]
  have everywhere (edges : List FlowEdge) :
      empty.roomAlong problem edges = problem.readSymbols.size * edges.length := by
    induction edges with
    | nil => rfl
    | cons _ _ ih =>
      rw [roomAlong, foldr_cons, nothing, length_cons, Nat.mul_succ, Nat.add_comm]
      exact congrArg (· + problem.readSymbols.size) ih
  simp [pending, everywhere, enoughVisits, FlowGraph.ids]

theorem settled_of_enough {visits : Nat} (enough : enoughVisits problem ≤ visits) :
    (solve problem visits problem.graph.ids.reverse .empty).2 = [] := by
  apply settled_of_pending_le (rising_empty problem) (reading_empty problem)
  rw [pending_start]
  exact enough

/-- With enough visits no block is left waiting. -/
theorem queue_drains (problem : FlowProblem) :
    let bound := problem.graph.size + problem.readSymbols.size * problem.graph.edges.length
    (∀ limit, bound ≤ limit →
      (Liveness.solve problem limit problem.graph.ids.reverse .empty).2 = []) ∧
    (∀ limit block, ∀ symbol ∈ (ofProblem problem limit).liveIn block,
      symbol ∈ problem.readSymbols) ∧
    ∀ limit other, bound ≤ limit → bound ≤ other → ∀ block,
      (ofProblem problem limit).liveIn block = (ofProblem problem other).liveIn block ∧
      (ofProblem problem limit).liveOut block = (ofProblem problem other).liveOut block := by
  intro bound
  have settled : (Liveness.solve problem bound problem.graph.ids.reverse .empty).2 = [] :=
    settled_of_enough (Nat.le_refl bound)
  refine ⟨fun limit enough => settled_of_enough enough, ?_, ?_⟩
  · intro limit block symbol isLive
    exact mem_of_closed problem.closed_readSymbols limit isLive
  · intro limit other enough enoughOther block
    rw [ofProblem, ofProblem, solve_of_settled settled enough, solve_of_settled settled enoughOther]
    exact ⟨rfl, rfl⟩

theorem countdown_drains :
    countdown.graph.size + countdown.readSymbols.size * countdown.graph.edges.length = 12 ∧
      (Liveness.solve countdown 12 countdown.graph.ids.reverse .empty).2 = [] := by
  have bound : countdown.graph.size +
      countdown.readSymbols.size * countdown.graph.edges.length = 12 := by
    decide +kernel
  exact ⟨bound, (queue_drains countdown).1 12 (Nat.le_of_eq bound)⟩

end Liveness

namespace FlowProblem

/-- A solution that lies within every other. -/
structure IsLeast (problem : FlowProblem) (before after : BlockId → SymbolSet) : Prop where
  solves : problem.Solves before after
  least : ∀ {otherBefore otherAfter}, problem.Solves otherBefore otherAfter → ∀ block,
    (∀ symbol ∈ before block, symbol ∈ otherBefore block) ∧
      ∀ symbol ∈ after block, symbol ∈ otherAfter block

variable {problem : FlowProblem}

theorem Solves.liveOut_subset {before after : BlockId → SymbolSet}
    (solves : problem.Solves before after) (limit : Nat) (block : BlockId) :
    ∀ symbol ∈ (ofProblem problem limit).liveOut block, symbol ∈ after block := by
  intro symbol isLive
  have risen := ((rising_empty problem).solve limit problem.graph.ids.reverse).1
  obtain ⟨next, edge, isLive⟩ :=
    (mem_joined _ _ _ _).mp (risen.liveOut block symbol isLive)
  exact (solves.after_iff block symbol).mpr
    ⟨next, edge, mem_of_closed solves.closed limit isLive⟩

theorem isLeast_of_enough {limit : Nat} (enough : enoughVisits problem ≤ limit) :
    problem.IsLeast (ofProblem problem limit).liveIn
      (ofProblem problem limit).liveOut where
  solves := solves_of_settled (settled_of_enough enough)
  least solves block :=
    ⟨fun _ isLive => mem_of_closed solves.closed limit isLive,
      solves.liveOut_subset limit block⟩

theorem deadStores_anti (problem : FlowProblem) (model : Model) {first second : Liveness}
    (below : first.Below second) (block : BlockId) {store : DeadStore}
    (isDead : store ∈ problem.deadStores model second block) :
    store ∈ problem.deadStores model first block := by
  rw [mem_deadStores] at isDead ⊢
  obtain ⟨earlier, element, later, split, isDead⟩ := isDead
  refine ⟨earlier, element, later, split, ?_⟩
  rw [Element.mem_deadStores] at isDead ⊢
  obtain ⟨name, symbol, assigns, named, isLocal, notLive, parts⟩ := isDead
  refine ⟨name, symbol, assigns, named, isLocal, ?_, parts⟩
  intro isLive
  exact notLive (problem.beforeAll_mono later (below.liveOut block) _ isLive)

/-- What a higher limit reports as a dead store, a lower limit reports too. -/
theorem lower_limit_reports_more (problem : FlowProblem) (model : Model) {fewer limit : Nat}
    (isFewer : fewer ≤ limit) :
    ∃ before after, problem.IsLeast before after ∧ ∀ block,
      let stopped := Liveness.ofProblem problem fewer
      let longer := Liveness.ofProblem problem limit
      (∀ symbol ∈ stopped.liveIn block, symbol ∈ longer.liveIn block) ∧
      (∀ symbol ∈ longer.liveIn block, symbol ∈ before block) ∧
      (∀ symbol ∈ stopped.liveOut block, symbol ∈ longer.liveOut block) ∧
      (∀ symbol ∈ longer.liveOut block, symbol ∈ after block) ∧
      ∀ store ∈ problem.deadStores model longer block,
        store ∈ problem.deadStores model stopped block := by
  have isLeast := isLeast_of_enough (Nat.le_refl (Liveness.enoughVisits problem))
  have below := Liveness.ofProblem_below problem isFewer
  refine ⟨_, _, isLeast, fun block => ⟨below.liveIn block, ?_, below.liveOut block, ?_, ?_⟩⟩
  · intro symbol isLive
    exact Liveness.mem_of_closed isLeast.solves.closed limit isLive
  · exact isLeast.solves.liveOut_subset limit block
  · intro store isDead
    exact problem.deadStores_anti model below block isDead

def lingering : FunctionDef :=
  let mark (id start stop : Nat) : Mark := ⟨id, ⟨start, stop⟩⟩
  let name (id start : Nat) (text : String) : Identifier := ⟨mark id start (start + 1), text⟩
  let number (id start : Nat) (text : String) : Expr :=
    .literal (mark id start (start + 1)) .int text []
  ⟨⟨mark 1 0 67, name 2 4 "f", [], none, [], false⟩,
    [.simple (mark 3 13 18) (.assign [.name (name 4 13 "x")] (number 5 17 "0")),
      .simple (mark 6 23 28) (.assign [.name (name 7 23 "x")] (number 8 27 "1")),
      .whileLoop (mark 9 33 54) (.name (name 10 39 "c")) [.simple (mark 11 50 54) .pass] [],
      .simple (mark 12 59 67) (.ret (some (.name (name 13 66 "x"))))]⟩

def lingeringModel : Model :=
  .ofModule ⟨"", "m.py", none, {}⟩ ⟨⟨0, ⟨0, 68⟩⟩, [.functionDef lingering.head lingering.body]⟩

def lingeringProblem : FlowProblem :=
  ofGraph lingeringModel 1 (Stmt.graph lingering.body)

theorem lingering_reported_early :
    3 ≤ 20 ∧
      ⟨3, 4, 1⟩ ∈ lingeringProblem.deadStores lingeringModel
        (Liveness.ofProblem lingeringProblem 3) 2 ∧
      ⟨6, 7, 1⟩ ∈ lingeringProblem.deadStores lingeringModel
        (Liveness.ofProblem lingeringProblem 3) 2 ∧
      ⟨6, 7, 1⟩ ∉ lingeringProblem.deadStores lingeringModel
        (Liveness.ofProblem lingeringProblem 20) 2 := by
  have reported : ⟨3, 4, 1⟩ ∈ lingeringProblem.deadStores lingeringModel
      (Liveness.ofProblem lingeringProblem 20) 2 := by
    decide +kernel
  obtain ⟨_, _, _, answers⟩ := lower_limit_reports_more lingeringProblem lingeringModel
    (show 3 ≤ 20 by decide)
  exact ⟨by decide, (answers 2).2.2.2.2 _ reported, by decide +kernel, by decide +kernel⟩

end FlowProblem

end PyStatic
