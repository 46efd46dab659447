import PyStatic.Proofs.Flow.Drawing
import PyStatic.Proofs.Flow.Execution

/-!
Contract: the paths of a function's flow graph are the executions of its body.

A part stands for executions: reading in the graph with the part is reading in the graph without it,
where at the block in which the part begins one reads an execution, followed by what is read where
it ends. Both directions are one equation, and a loop is the only solution of that at its header.
-/

namespace PyStatic

open List FlowGraph

open FlowGraph Executions

namespace Executions

variable (runs : Executions) (next : Resumption)

theorem followed_element (element : Element) :
    Followed
      (fun steps ending => ∃ rest, steps = .element element :: rest ∧ runs rest ending) next =
      Passes element (runs.Followed next) := by
  funext trace
  refine propext ⟨?_, ?_⟩
  · rintro ⟨_, ending, after, ⟨steps, rfl, run⟩, follows, rfl⟩
    exact ⟨Step.trace steps ++ after, rfl, steps, ending, after, run, follows, rfl⟩
  · rintro ⟨_, rfl, steps, ending, after, run, follows, rfl⟩
    exact ⟨_, ending, after, ⟨steps, rfl, run⟩, follows, rfl⟩

theorem followed_iterable (iter : Expr) :
    Followed (fun steps ending => ∃ rest, steps = .iterable iter :: rest ∧ runs rest ending) next =
      runs.Followed next := by
  funext trace
  refine propext ⟨?_, ?_⟩
  · rintro ⟨_, ending, after, ⟨steps, rfl, run⟩, follows, rfl⟩
    exact ⟨steps, ending, after, run, follows, rfl⟩
  · rintro ⟨steps, ending, after, run, follows, rfl⟩
    exact ⟨.iterable iter :: steps, ending, after, ⟨steps, rfl, run⟩, follows, rfl⟩

theorem followed_or (others : Executions) :
    Followed (fun steps ending => runs steps ending ∨ others steps ending) next =
      fun trace => runs.Followed next trace ∨ others.Followed next trace := by
  funext trace
  simp only [Followed, or_and_right, exists_or]

theorem followed_nothing (final : Ending) :
    Followed (fun steps ending => steps = [] ∧ ending = final) next = next final := by
  funext trace
  refine propext ⟨?_, fun follows => ⟨[], final, trace, ⟨rfl, rfl⟩, follows, rfl⟩⟩
  rintro ⟨_, _, rest, ⟨rfl, rfl⟩, follows, rfl⟩
  exact follows

theorem resume_of_isJump {form : SimpleStmt} (jumps : form.isJump = true)
    (falls : List NodeId → Prop) : Resume falls next form.ending = next form.ending := by
  cases form <;> first | rfl | cases jumps

end Executions

namespace Drawn

def Resumes (graph : FlowGraph) (loop : Option LoopTargets) (onward : Onward)
    (next : Resumption) : Prop :=
  ∀ form : SimpleStmt, form.isJump = true →
    next form.ending = graph.Reads onward (jumpTarget loop form)

def Fits (onward : Onward) (graph : FlowGraph) (current : Option Nat) : Prop :=
  ∀ (block : Nat) (trace : List NodeId), current = some block ∨ graph.size ≤ block →
    ¬ onward block trace

structure Ready (graph : FlowGraph) (current : Option Nat) (loop : Option LoopTargets) : Prop where
  isOpen : ∀ block : Nat, current = some block → graph.IsOpen block
  aims : ∀ form, jumpTarget loop form < graph.size

/-- A part that is drawn on from `current` stands for certain executions. -/
structure Depicts (drawn : Drawn) (graph : FlowGraph) (current : Option Nat)
    (loop : Option LoopTargets) (runs : Executions) : Prop where
  grows : graph.Grows current drawn.graph
  ending : ∀ block : Nat, drawn.ending = some block →
    drawn.graph.IsOpen block ∧ (current = some block ∨ graph.size ≤ block)
  reads : ∀ onward next, Fits onward graph current →
    Resumes drawn.graph loop (onward.add drawn.ending (next .falls)) next → ∀ block < graph.size,
      drawn.graph.Reads (onward.add drawn.ending (next .falls)) block =
        graph.Reads (onward.add current (runs.Followed next)) block

/-- What was drawn is one more way on from `source`, to `target`. -/
structure Sprouts (graph : FlowGraph) (source : Nat) (result : FlowGraph)
    (loop : Option LoopTargets) (runs : Executions) (target : Nat) : Prop where
  grows : graph.Grows (some source) result
  reads : ∀ onward next, Fits onward graph none → Resumes result loop onward next →
    next .falls = result.Reads onward target → ∀ block < graph.size,
      result.Reads onward block = graph.Reads (onward.add (some source) (runs.Followed next)) block

variable {graph middle result : FlowGraph} {drawn : Drawn} {loop : Option LoopTargets}
  {runs others : Executions} {onward : Onward} {current source target : Nat} {place : Option Nat}
  {reads : List NodeId → Prop}

section Fits

variable (fits : Fits onward graph place)

include fits

theorem Fits.later (part : drawn.Depicts graph place loop runs) :
    Fits onward drawn.graph drawn.ending := by
  rintro block trace (ends | isNew)
  · exact fits block trace (part.ending block ends).2
  · exact fits block trace (.inr (Nat.le_trans part.grows.size_le isNew))

theorem Fits.grow {touched : Option Nat} (grows : graph.Grows touched result) :
    Fits onward result none :=
  fun block trace isNew =>
    fits block trace (.inr (Nat.le_trans grows.size_le (isNew.resolve_left nofun)))

theorem Fits.add {other : Option Nat}
    (within : ∀ block : Nat, other = some block → block < graph.size) :
    Fits (onward.add other reads) graph none := by
  rintro block trace isNew (given | ⟨isOther, -⟩)
  · exact fits block trace (.inr (isNew.resolve_left nofun)) given
  · exact absurd (within block isOther) (Nat.not_lt.mpr (isNew.resolve_left nofun))

end Fits

section Ready

variable (ready : Ready graph place loop)

include ready

theorem Ready.grow {touched : Option Nat} (grows : graph.Grows touched result) :
    Ready result none loop :=
  ⟨nofun, fun form => Nat.lt_of_lt_of_le (ready.aims form) grows.size_le⟩

theorem Ready.after (part : drawn.Depicts graph place loop runs) :
    Ready drawn.graph drawn.ending loop :=
  ⟨fun block ends => (part.ending block ends).1, (ready.grow part.grows).aims⟩

theorem Ready.fork (sourceExists : source < graph.size) :
    Ready (fork graph source) (some graph.size) loop := by
  refine ⟨?_, (ready.grow (grows_fork graph source)).aims⟩
  rintro _ ⟨rfl⟩
  exact isOpen_fork sourceExists

theorem Ready.resumes {touched : Option Nat} {next : Resumption} {other : Onward}
    (grows : graph.Grows touched middle) (resumes : Resumes result loop other next)
    (same : ∀ block < middle.size, result.Reads other block = middle.Reads onward block) :
    Resumes middle loop onward next :=
  fun form jumps => (resumes form jumps).trans (same _ ((ready.grow grows).aims form))

end Ready

theorem Ready.inRange (ready : Ready graph (some current) loop) : current < graph.size :=
  (ready.isOpen current rfl).inRange

/-! ## Statements without suites -/

theorem Depicts.nothing (ready : Ready graph place loop) :
    Depicts ⟨graph, place⟩ graph place loop fun steps ending => steps = [] ∧ ending = .falls where
  grows := .refl graph place
  ending block ends := ⟨ready.isOpen block ends, .inl ends⟩
  reads onward next _ _ block _ := by rw [followed_nothing]

theorem Depicts.jump {form : SimpleStmt} (ready : Ready graph (some current) loop)
    (jumps : form.isJump = true) :
    Depicts ⟨graph.addEdge current (jumpTarget loop form), none⟩ graph (some current) loop
      fun steps ending => steps = [] ∧ ending = form.ending where
  grows := .addEdge ..
  ending := nofun
  reads onward next _ resumes block _ := by
    rw [Onward.add_none] at resumes ⊢
    rw [followed_nothing, resumes form jumps]
    exact reads_addEdgeFrom (fun block same => (ready.isOpen block same).inRange) (ready.aims form)

theorem Depicts.afterElement (ready : Ready graph (some current) loop) (element : Element)
    (part : Ready (graph.addElement current element) (some current) loop →
      drawn.Depicts (graph.addElement current element) (some current) loop runs) :
    drawn.Depicts graph (some current) loop
      fun steps ending => ∃ rest, steps = .element element :: rest ∧ runs rest ending := by
  have isOpen := ready.isOpen current rfl
  have added := Grows.addElement graph current element
  have sameSize := size_addElement graph current element
  have addedOpen (block : Nat) (same : some current = some block) :
      (graph.addElement current element).IsOpen block :=
    ⟨sameSize ▸ (ready.isOpen block same).inRange, by simpa using (ready.isOpen block same).noEdges⟩
  have part := part ⟨addedOpen, (ready.grow added).aims⟩
  refine ⟨added.trans part.grows fun _ => .inl, sameSize ▸ part.ending, ?_⟩
  intro onward next fits resumes block inRange
  rw [part.reads onward next (by rwa [Fits, sameSize]) resumes block (by rwa [sameSize]),
    followed_element]
  exact reads_addElement isOpen (fun trace => fits current trace (.inl rfl)) element

theorem Depicts.single {final : Ending} (ready : Ready graph (some current) loop)
    (element : Element) (part : Ready (graph.addElement current element) (some current) loop →
      drawn.Depicts (graph.addElement current element) (some current) loop
        fun steps ending => steps = [] ∧ ending = final) :
    drawn.Depicts graph (some current) loop
      fun steps ending => steps = [.element element] ∧ ending = final := by
  have sameRuns : (fun steps ending => steps = [Step.element element] ∧ ending = final) =
      fun steps ending => ∃ rest, steps = .element element :: rest ∧ rest = [] ∧
        ending = final := by
    funext steps ending
    simp
  rw [sameRuns]
  exact .afterElement ready element part

theorem Depicts.afterIterable (iter : Expr) (part : drawn.Depicts graph place loop runs) :
    drawn.Depicts graph place loop
      fun steps ending => ∃ rest, steps = .iterable iter :: rest ∧ runs rest ending where
  grows := part.grows
  ending := part.ending
  reads onward next fits resumes := by
    rw [followed_iterable]
    exact part.reads onward next fits resumes

/-! ## Suites -/

theorem Depicts.andThen {stmt : Stmt} {rest : List Stmt} {second : Drawn}
    (ready : Ready graph place loop) (first : drawn.Depicts graph place loop stmt.Executes)
    (later : second.Depicts drawn.graph drawn.ending loop (Stmt.ExecutesAll rest)) :
    second.Depicts graph place loop (Stmt.ExecutesAll (stmt :: rest)) where
  grows := first.grows.trans later.grows fun block ends => (first.ending block ends).2
  ending block ends := by
    obtain ⟨isOpen, same | isNew⟩ := later.ending block ends
    · exact ⟨isOpen, (first.ending block same).2⟩
    · exact ⟨isOpen, .inr (Nat.le_trans first.grows.size_le isNew)⟩
  reads onward next fits resumes block inRange := by
    have laterReads := later.reads onward next (fits.later first) resumes
    have resumesFirst : Resumes drawn.graph loop
        (onward.add drawn.ending (Followed (Stmt.ExecutesAll rest) next))
        (Resume (Followed (Stmt.ExecutesAll rest) next) next) := fun form jumps => by
      rw [resume_of_isJump next jumps]
      exact ready.resumes first.grows resumes laterReads form jumps
    rw [laterReads block (Nat.lt_of_lt_of_le inRange first.grows.size_le),
      funext fun trace => propext (followed_cons_iff stmt rest next trace)]
    exact first.reads onward _ fits resumesFirst block inRange

theorem Depicts.unreached (ready : Ready graph none loop)
    (part : Ready (graph.addBlock .normal) (some graph.size) loop →
      drawn.Depicts (graph.addBlock .normal) (some graph.size) loop runs) :
    drawn.Depicts graph none loop runs := by
  have added := Grows.addBlock graph .normal none
  have isNew : ∀ block : Nat, some graph.size = some block → graph.size ≤ block :=
    fun _ same => Nat.le_of_eq (Option.some.inj same)
  have part := part ⟨fun block same => Option.some.inj same ▸
    ⟨by simp, by simp [noEdges_of_size_le]⟩, (ready.grow added).aims⟩
  refine ⟨added.trans part.grows fun block same => .inr (isNew block same), ?_, ?_⟩
  · intro block ends
    obtain ⟨isOpen, within⟩ := part.ending block ends
    exact ⟨isOpen, .inr (within.elim (isNew block) (Nat.le_trans added.size_le))⟩
  · intro onward next fits resumes block inRange
    have fitsPart : Fits onward (graph.addBlock .normal) (some graph.size) :=
      fun block trace within =>
      fits block trace (.inr (within.elim (isNew block) (Nat.le_trans added.size_le)))
    rw [part.reads onward next fitsPart resumes block (Nat.lt_of_lt_of_le inRange added.size_le),
      reads_addBlock, Onward.add_none]
    exact reads_congr inRange fun block inRange =>
      Onward.add_of_ne fun same => absurd (isNew block same) (Nat.not_le.mpr inRange)

section Forked

variable (part : drawn.Depicts (fork graph source) (some graph.size) loop runs)

include part

theorem Depicts.ending_forked {block : Nat} (ends : drawn.ending = some block) :
    graph.size ≤ block := by
  rcases (part.ending block ends).2 with same | isNew
  · exact Nat.le_of_eq (Option.some.inj same)
  · rw [size_fork] at isNew
    exact Nat.le_of_succ_le isNew

theorem Depicts.grows_forked : graph.Grows (some source) drawn.graph :=
  (grows_fork graph source).trans part.grows fun _ same =>
    .inr (Nat.le_of_eq (Option.some.inj same))

theorem Depicts.reads_forked (sourceExists : source < graph.size)
    {onward : Onward} {next : Resumption} (fits : Fits onward graph none)
    (resumes : Resumes drawn.graph loop (onward.add drawn.ending (next .falls)) next)
    (block : Nat) (inRange : block < graph.size) :
    drawn.graph.Reads (onward.add drawn.ending (next .falls)) block =
      graph.Reads (onward.add (some source) (runs.Followed next)) block := by
  have fitsPart : Fits onward (fork graph source) (some graph.size) := by
    rintro block trace (same | isNew)
    · exact fits block trace (.inr (Nat.le_of_eq (Option.some.inj same)))
    · rw [size_fork] at isNew
      exact fits block trace (.inr (Nat.le_of_succ_le isNew))
  rw [part.reads onward next fitsPart resumes block (by rw [size_fork]; omega)]
  exact reads_forkTo .normal sourceExists (fun trace => fits _ trace (.inr (Nat.le_refl _)))
    inRange

end Forked

theorem Sprouts.of_forked (ready : Ready graph none loop) (sourceExists : source < graph.size)
    (targetExists : target < graph.size)
    (part : Ready (fork graph source) (some graph.size) loop →
      drawn.Depicts (fork graph source) (some graph.size) loop runs) :
    Sprouts graph source (drawn.graph.addEdgeFrom drawn.ending target) loop runs target := by
  have part := part (ready.fork sourceExists)
  have grows := part.grows_forked
  refine ⟨grows.trans (.addEdgeFrom ..) fun _ ends => .inr (part.ending_forked ends), ?_⟩
  intro onward next fits resumes falls block inRange
  have closed : ∀ block, (drawn.graph.addEdgeFrom drawn.ending target).Reads onward block =
      drawn.graph.Reads (onward.add drawn.ending (next .falls)) block := fun block => by
    rw [reads_addEdgeFrom (fun block ends => (part.ending block ends).1.inRange)
      (Nat.lt_of_lt_of_le targetExists grows.size_le), falls]
  rw [closed, part.reads_forked sourceExists fits
    (ready.resumes grows resumes fun block _ => closed block) block inRange]

theorem Sprouts.trans (ready : Ready graph none loop) (sourceExists : source < graph.size)
    (targetExists : target < graph.size)
    (first : Sprouts graph source middle loop runs target)
    (second : Sprouts middle source result loop others target) :
    Sprouts graph source result loop
      (fun steps ending => runs steps ending ∨ others steps ending) target where
  grows := first.grows.trans second.grows fun _ => .inl
  reads onward next fits resumes falls block inRange := by
    have sizes := first.grows.size_le
    have secondReads := second.reads onward next (fits.grow first.grows) resumes falls
    have fitsFirst : Fits (onward.add (some source) (others.Followed next)) graph none :=
      fits.add (by rintro _ ⟨rfl⟩; exact sourceExists)
    rw [secondReads block (by omega), first.reads _ next fitsFirst
      (ready.resumes first.grows resumes secondReads)
      (falls.trans (secondReads target (by omega))) block inRange, followed_or, Onward.add_add]
    simp only [or_comm]

/-! ## Branches -/

theorem Depicts.ofMeet {thenEnding elseEnding : Option Nat}
    (ready : Ready graph (some current) loop) (grows : graph.Grows (some current) middle)
    (thenExists : ∀ block : Nat, thenEnding = some block →
      block < middle.size ∧ (some current = some block ∨ graph.size ≤ block))
    (elseExists : ∀ block : Nat, elseEnding = some block →
      block < middle.size ∧ (some current = some block ∨ graph.size ≤ block))
    (reads : ∀ onward next, Fits onward graph (some current) →
      Resumes middle loop ((onward.add thenEnding (next .falls)).add elseEnding (next .falls))
        next →
      ∀ block < graph.size,
        middle.Reads ((onward.add thenEnding (next .falls)).add elseEnding (next .falls)) block =
          graph.Reads (onward.add (some current) (runs.Followed next)) block) :
    (meet middle thenEnding elseEnding).Depicts graph (some current) loop runs := by
  unfold meet
  split
  next both =>
    rw [Bool.and_eq_true, Option.isNone_iff_eq_none, Option.isNone_iff_eq_none] at both
    obtain ⟨rfl, rfl⟩ := both
    exact ⟨grows, nofun, by simpa only [Onward.add_none] using reads⟩
  · have added := Grows.addBlock middle .normal none
    have thenDrawn := Grows.addEdgeFrom (middle.addBlock .normal) thenEnding middle.size
    have elseDrawn := Grows.addEdgeFrom
      ((middle.addBlock .normal).addEdgeFrom thenEnding middle.size)
      elseEnding middle.size
    have notElse : elseEnding ≠ some middle.size :=
      fun ends => Nat.lt_irrefl _ (elseExists _ ends).1
    have thenBlank := thenDrawn.isBlank middle.size (by simp)
      (fun ends => Nat.lt_irrefl _ (thenExists _ ends).1)
      ⟨by simp [elements_of_size_le], by simp [noEdges_of_size_le]⟩
    have elseBlank := elseDrawn.isBlank _ (by simp) notElse thenBlank
    refine ⟨((grows.trans added nofun).trans thenDrawn fun block ends =>
      (thenExists block ends).2).trans elseDrawn
        fun block ends => (elseExists block ends).2, ?_, ?_⟩
    · rintro _ ⟨rfl⟩
      exact ⟨⟨by simp, elseBlank.noEdges⟩, .inr grows.size_le⟩
    · intro onward next fits resumes block inRange
      have isFree : ∀ trace, ¬ onward middle.size trace :=
        fun trace => fits _ trace (.inr grows.size_le)
      have joined : ∀ block < middle.size, (((middle.addBlock .normal).addEdgeFrom thenEnding
          middle.size).addEdgeFrom elseEnding middle.size).Reads
            (onward.add (some middle.size) (next .falls)) block =
          middle.Reads ((onward.add thenEnding (next .falls)).add elseEnding (next .falls))
            block := by
        intro block inRange
        rw [reads_addEdgeFrom (fun block ends => by
            have := (elseExists block ends).1
            rw [size_addEdgeFrom, size_addBlock]
            omega) (by simp), reads_of_isBlank elseBlank, Onward.add_self isFree,
          reads_addEdgeFrom (fun block ends =>
            Nat.lt_of_lt_of_le (thenExists block ends).1 added.size_le) (by simp),
          reads_of_isBlank thenBlank, Onward.add_of_ne notElse, Onward.add_self isFree,
          reads_addBlock]
        refine reads_congr inRange fun block inRange => ?_
        have differs : some middle.size ≠ some block :=
          fun same => Nat.ne_of_gt inRange (Option.some.inj same)
        funext trace
        simp [Onward.add, differs, or_right_comm]
      exact (joined block (Nat.lt_of_lt_of_le inRange grows.size_le)).trans
        (reads onward next fits (ready.resumes grows resumes joined) block inRange)

section Branch

variable {body other : Drawn} {thenRuns elseRuns : Executions}
  (ready : Ready graph (some current) loop)
  (thenPart : Ready (fork graph current) (some graph.size) loop →
    body.Depicts (fork graph current) (some graph.size) loop thenRuns)

include ready thenPart

theorem Depicts.branch_alone :
    (meet body.graph body.ending (some current)).Depicts graph (some current) loop
      fun steps ending => thenRuns steps ending ∨ Stmt.ExecutesAll [] steps ending := by
  have part := thenPart (ready.fork ready.inRange)
  have grows := part.grows_forked
  refine .ofMeet ready grows (fun block ends => ?_) (fun block same => ?_) ?_
  · exact ⟨(part.ending block ends).1.inRange, .inr (part.ending_forked ends)⟩
  · exact ⟨Option.some.inj same ▸ Nat.lt_of_lt_of_le ready.inRange grows.size_le, .inl same⟩
  · intro onward next fits resumes block inRange
    rw [Onward.add_comm] at resumes ⊢
    rw [part.reads_forked ready.inRange
      (fits.add fun block same => (ready.isOpen block same).inRange) resumes block inRange,
      Onward.add_add, followed_or, Stmt.executesAll_nil, followed_nothing]
    simp only [or_comm]

theorem Depicts.branch
    (elsePart : Ready (fork body.graph current) (some body.graph.size) loop →
      other.Depicts (fork body.graph current) (some body.graph.size) loop elseRuns) :
    (meet other.graph body.ending other.ending).Depicts graph (some current) loop
      fun steps ending => thenRuns steps ending ∨ elseRuns steps ending := by
  have thenPart := thenPart (ready.fork ready.inRange)
  have grows := thenPart.grows_forked
  have inBody := Nat.lt_of_lt_of_le ready.inRange grows.size_le
  have elsePart := elsePart ((ready.grow grows).fork inBody)
  have otherGrows := elsePart.grows_forked
  refine .ofMeet ready (grows.trans otherGrows fun _ => .inl) (fun block ends => ?_)
    (fun block ends => ?_) ?_
  · exact ⟨Nat.lt_of_lt_of_le (thenPart.ending block ends).1.inRange otherGrows.size_le,
      .inr (thenPart.ending_forked ends)⟩
  · exact ⟨(elsePart.ending block ends).1.inRange,
      .inr (Nat.le_trans grows.size_le (elsePart.ending_forked ends))⟩
  · intro onward next fits resumes block inRange
    have elseReads := elsePart.reads_forked inBody
      ((fits.grow grows).add fun block ends => (thenPart.ending block ends).1.inRange) resumes
    have thenResumes := ready.resumes grows resumes elseReads
    rw [Onward.add_comm] at thenResumes
    rw [elseReads block (Nat.lt_of_lt_of_le inRange grows.size_le), Onward.add_comm,
      thenPart.reads_forked ready.inRange
      (fits.add fun block same => (ready.isOpen block same).inRange) thenResumes block inRange,
      Onward.add_add, followed_or]
    simp only [or_comm]

end Branch

theorem Depicts.ofMatch (ready : Ready graph (some current) loop)
    (clauses : Ready (fork graph current) none loop → current < (fork graph current).size →
      graph.size < (fork graph current).size →
      Sprouts (fork graph current) current result loop runs graph.size) :
    Depicts ⟨result, some graph.size⟩ graph (some current) loop
      fun steps ending => steps = [] ∧ ending = .falls ∨ runs steps ending := by
  have currentOld := ready.inRange
  have forked := grows_fork graph current
  have clauses := clauses (ready.grow forked) (by rw [size_fork]; omega) (by simp)
  have notAfter : some current ≠ some graph.size :=
    fun same => Nat.ne_of_lt currentOld (Option.some.inj same)
  have afterBlank := clauses.grows.isBlank _ (by simp) notAfter
    (isBlank_forkTo .normal currentOld)
  refine ⟨forked.trans clauses.grows fun _ => .inl, ?_, ?_⟩
  · rintro _ ⟨rfl⟩
    exact ⟨⟨Nat.lt_of_lt_of_le (by simp) clauses.grows.size_le, afterBlank.noEdges⟩,
      .inr (Nat.le_refl _)⟩
  · intro onward next fits resumes block inRange
    have isFree : ∀ trace, ¬ onward graph.size trace :=
      fun trace => fits _ trace (.inr (Nat.le_refl _))
    rw [clauses.reads _ next ((fits.grow forked).add (by rintro _ ⟨rfl⟩; simp)) resumes
      (by rw [reads_of_isBlank afterBlank, Onward.add_self isFree]) block
      (by rw [size_fork]; omega),
      Onward.add_comm, fork_eq, reads_forkTo .normal currentOld
      (by rwa [Onward.add_of_ne notAfter]) inRange, Onward.add_add, followed_or, followed_nothing]
    simp only [or_comm]

/-! ## Loops -/

section Loop

variable {element : Element} {begins : List Step} {bodyRuns elseRuns : Executions}
  {body last : Drawn}

def withHeader (graph : FlowGraph) (current : Nat) (element : Element) : FlowGraph :=
  ((forkTo .loopHeader graph current).addElement graph.size element).addBlock .normal

theorem enterLoop_eq (graph : FlowGraph) (current : Nat) (element : Element) :
    enterLoop graph current element = fork (withHeader graph current element) graph.size :=
  rfl

@[simp] theorem size_withHeader (graph : FlowGraph) (current : Nat) (element : Element) :
    (withHeader graph current element).size = graph.size + 2 := by
  simp [withHeader, forkTo]

@[simp] theorem size_enterLoop (graph : FlowGraph) (current : Nat) (element : Element) :
    (enterLoop graph current element).size = graph.size + 3 := by
  simp [enterLoop]

section Enter

theorem grows_withHeader (graph : FlowGraph) (current : Nat) (element : Element) :
    graph.Grows (some current) (withHeader graph current element) ∧
    (withHeader graph current element).IsBlank (graph.size + 1) := by
  have forked := grows_forkTo .loopHeader graph current
  have headed := Grows.addElement (forkTo .loopHeader graph current) graph.size element
  have sizeHeaded : ((forkTo .loopHeader graph current).addElement graph.size element).size ≤
      graph.size + 1 := by simp [forkTo]
  refine ⟨(forked.trans headed fun _ same => .inr (Nat.le_of_eq (Option.some.inj same))).trans
    (.addBlock _ .normal none) (by rintro _ ⟨⟩), ?_, fun next => ?_⟩
  · rw [withHeader, elements_addBlock, elements_of_size_le _ sizeHeaded]
  · rw [withHeader, edges_addBlock]
    exact noEdges_of_size_le sizeHeaded next

variable (currentExists : current < graph.size)

include currentExists

theorem reads_enterLoop {first second : List NodeId → Prop}
    (isFree : ∀ trace, ¬ onward graph.size trace)
    (startFree : ∀ trace, ¬ onward (graph.size + 2) trace) :
    (enterLoop graph current element).Reads ((onward.add (some graph.size) first).add
        (some (graph.size + 2)) second) graph.size =
        Passes element (fun trace => first trace ∨ second trace) ∧
      ∀ block < graph.size, (enterLoop graph current element).Reads
        ((onward.add (some graph.size) first).add (some (graph.size + 2)) second) block =
          graph.Reads (onward.add (some current)
            (Passes element fun trace => first trace ∨ second trace)) block := by
  have isBlank := isBlank_forkTo .loopHeader currentExists
  have enters (block : Nat) (inRange : block < graph.size + 2) :
      (enterLoop graph current element).Reads ((onward.add (some graph.size) first).add
        (some (graph.size + 2)) second) block = (forkTo .loopHeader graph current).Reads
        (onward.add (some graph.size) (Passes element fun trace => first trace ∨ second trace))
        block := by
    have startFree : ∀ trace, ¬ onward.add (some graph.size) first
        (withHeader graph current element).size trace := by
      rwa [size_withHeader, Onward.add_of_ne fun same => by have := Option.some.inj same; omega]
    rw [← size_withHeader graph current element] at inRange ⊢
    rw [enterLoop_eq, fork_eq, reads_forkTo .normal (by rw [size_withHeader]; omega) startFree
      inRange, Onward.add_add, withHeader, reads_addBlock]
    exact reads_addElement ⟨by simp [forkTo], isBlank.noEdges⟩ isFree element
  refine ⟨?_, fun block inRange => ?_⟩
  · rw [enters _ (by omega), reads_of_isBlank isBlank, Onward.add_self isFree]
  · rw [enters block (by omega), reads_forkTo .loopHeader currentExists isFree inRange]

theorem reads_loop {next : Resumption} (silent : Step.trace begins = [])
    (bodyPart : body.Depicts (enterLoop graph current element) (some (graph.size + 2))
      (some ⟨graph.size, graph.size + 1⟩) bodyRuns)
    (fits : Fits onward (enterLoop graph current element) (some (graph.size + 2)))
    (isFree : ∀ trace, ¬ onward graph.size trace)
    (elseReads : ∀ block < body.graph.size, result.Reads onward block =
      (body.graph.addEdgeFrom body.ending graph.size).Reads
        (onward.add (some graph.size) (elseRuns.Followed next)) block)
    (falls : next .falls = result.Reads onward (graph.size + 1))
    (leaves : next .leaves = result.Reads onward exit) (block : Nat)
    (inRange : block < graph.size) :
    result.Reads onward block = graph.Reads (onward.add (some current)
      (Followed (Rounds (.element element) begins bodyRuns elseRuns) next)) block := by
  have bodySize := bodyPart.grows.size_le
  rw [size_enterLoop] at bodySize
  have closed : ∀ block < body.graph.size, result.Reads onward block = body.graph.Reads
      ((onward.add (some graph.size) (elseRuns.Followed next)).add body.ending
        (result.Reads onward graph.size)) block := by
    intro block inRange
    rw [elseReads block inRange, reads_addEdgeFrom (fun block ends =>
      (bodyPart.ending block ends).1.inRange) (by omega), ← elseReads graph.size (by omega)]
  have fitsBody : Fits (onward.add (some graph.size) (elseRuns.Followed next))
      (enterLoop graph current element) (some (graph.size + 2)) := by
    rintro block trace within (given | ⟨same, -⟩)
    · exact fits block trace within given
    · rw [size_enterLoop, ← Option.some.inj same, Option.some.injEq] at within
      omega
  have bodyReads := bodyPart.reads _ (AfterRound (result.Reads onward graph.size) next) fitsBody (by
    intro form jumps
    cases form with
    | ret => exact leaves.trans (closed 1 (by omega))
    | raise => exact leaves.trans (closed 1 (by omega))
    | leaveLoop => exact falls.trans (closed _ (by omega))
    | nextRound => exact closed _ (by omega)
    | _ => cases jumps)
  obtain ⟨atHeader, before⟩ := @reads_enterLoop _ onward _ element currentExists
    (elseRuns.Followed next) (bodyRuns.Followed (AfterRound (result.Reads onward graph.size) next))
    isFree fun trace => fits _ trace (.inl rfl)
  have header := (closed graph.size (by omega)).trans
    ((bodyReads graph.size (by rw [size_enterLoop]; omega)).trans atHeader)
  have rounds : result.Reads onward graph.size =
      Followed (Rounds (.element element) begins bodyRuns elseRuns) next :=
    funext fun trace => propext (readsLoop_unique (fun trace => iff_of_eq (congrFun header trace))
      (followed_rounds_iff silent bodyRuns elseRuns next) trace)
  rw [← rounds, header, ← before block inRange]
  exact (closed block (by omega)).trans (bodyReads block (by rw [size_enterLoop]; omega))

end Enter

theorem Depicts.ofLoop (silent : Step.trace begins = []) (ready : Ready graph (some current) loop)
    (bodyPart : Ready (enterLoop graph current element) (some (graph.size + 2))
      (some ⟨graph.size, graph.size + 1⟩) →
      body.Depicts (enterLoop graph current element) (some (graph.size + 2))
        (some ⟨graph.size, graph.size + 1⟩) bodyRuns)
    (elsePart : Ready (body.graph.addEdgeFrom body.ending graph.size) none loop →
      graph.size + 1 < (body.graph.addEdgeFrom body.ending graph.size).size →
      Sprouts (body.graph.addEdgeFrom body.ending graph.size) graph.size last.graph loop
        elseRuns (graph.size + 1))
    (lastEnding : last.ending = some (graph.size + 1)) :
    last.Depicts graph (some current) loop
      (Rounds (.element element) begins bodyRuns elseRuns) := by
  obtain ⟨headed, headedBlank⟩ := grows_withHeader graph current element
  have headerExists : graph.size < (withHeader graph current element).size := by simp
  have started := grows_fork (withHeader graph current element) graph.size
  have isStart : (enterLoop graph current element).IsOpen (graph.size + 2) :=
    size_withHeader graph current element ▸ isOpen_fork headerExists
  have bodyPart := bodyPart ⟨by rintro _ ⟨rfl⟩; exact isStart, fun form => by
    rw [size_enterLoop]
    have exitExists : 1 < graph.size := ready.aims .pass
    unfold jumpTarget
    split
    · exact (by omega : graph.size + 1 < graph.size + 3)
    · exact (by omega : graph.size < graph.size + 3)
    · exact (by omega : 1 < graph.size + 3)⟩
  have bodySize := bodyPart.grows.size_le
  rw [size_enterLoop] at bodySize
  have closing := Grows.addEdgeFrom body.graph body.ending graph.size
  have endsLate (block : Nat) (ends : body.ending = some block) : graph.size + 2 ≤ block := by
    rcases (bodyPart.ending block ends).2 with same | isNew
    · exact Nat.le_of_eq (Option.some.inj same)
    · rw [size_enterLoop] at isNew
      omega
  have isNew (block : Nat) (same : some graph.size = some block) : graph.size ≤ block :=
    Nat.le_of_eq (Option.some.inj same)
  have closed := (((headed.trans started fun block same => .inr (isNew block same)).trans
    bodyPart.grows fun block same => .inr (by have := Option.some.inj same; omega)).trans closing
    fun block ends => .inr (by have := endsLate block ends; omega))
  have elsePart := elsePart (ready.grow closed) (by rw [size_addEdgeFrom]; omega)
  -- no part of the loop starts in the block after it, so each leaves it blank
  have lastBlank : last.graph.IsBlank (graph.size + 1) := by
    have notHeader : some graph.size ≠ some (graph.size + 1) :=
      fun same => Nat.ne_of_lt (Nat.lt_succ_self _) (Option.some.inj same)
    have notStart : some (graph.size + 2) ≠ some (graph.size + 1) :=
      fun same => Nat.ne_of_gt (Nat.lt_succ_self _) (Option.some.inj same)
    have notEnding : body.ending ≠ some (graph.size + 1) :=
      fun ends => Nat.not_succ_le_self _ (endsLate _ ends)
    exact elsePart.grows.isBlank _ (by rw [size_addEdgeFrom]; omega) notHeader
      (closing.isBlank _ (by omega) notEnding
        (bodyPart.grows.isBlank _ (by rw [size_enterLoop]; omega) notStart
          (started.isBlank _ (by rw [size_withHeader]; omega) notHeader headedBlank)))
  have lastSize := elsePart.grows.size_le
  rw [size_addEdgeFrom] at lastSize
  refine ⟨closed.trans elsePart.grows fun block same => .inr (isNew block same), ?_, ?_⟩
  · intro block ends
    obtain rfl := Option.some.inj (lastEnding.symm.trans ends)
    exact ⟨⟨by omega, lastBlank.noEdges⟩, .inr (Nat.le_succ _)⟩
  · intro onward next fits resumes block inRange
    rw [lastEnding] at resumes ⊢
    have isFree (block : Nat) (isNew : graph.size ≤ block) (trace : List NodeId) :
        ¬ onward block trace := fits block trace (.inr isNew)
    have atAfter : next .falls = last.graph.Reads (onward.add (some (graph.size + 1)) (next .falls))
        (graph.size + 1) := by
      rw [reads_of_isBlank lastBlank, Onward.add_self (isFree _ (Nat.le_succ _))]
    have elseReads := elsePart.reads _ next ((fits.grow closed).add fun block same => by
      rw [size_addEdgeFrom, ← Option.some.inj same]; omega) resumes atAfter
    -- a break leads to the block after the loop, which lies before the blocks of the body
    have fitsBody : Fits (onward.add (some (graph.size + 1)) (next .falls))
        (enterLoop graph current element) (some (graph.size + 2)) := by
      rintro block trace within (given | ⟨same, -⟩) <;>
        rw [size_enterLoop, Option.some.injEq] at within
      · exact isFree block (by omega) trace given
      · have := Option.some.inj same
        omega
    have notAfter {block : Nat} (inRange : block ≤ graph.size) :
        some (graph.size + 1) ≠ some block :=
      fun same => by have := Option.some.inj same; omega
    rw [reads_loop ready.inRange silent bodyPart fitsBody
      (by rw [Onward.add_of_ne (notAfter (Nat.le_refl _))]; exact isFree _ (Nat.le_refl _))
      (size_addEdgeFrom body.graph body.ending graph.size ▸ elseReads) atAfter
      (resumes (.ret none) rfl) block inRange]
    refine reads_congr inRange fun block inRange => ?_
    rw [Onward.add_comm, Onward.add_of_ne (notAfter (Nat.le_of_lt inRange))]

end Loop

end Drawn

open Drawn

/-! ## All statements -/

theorem Stmt.drawElse_ending (orelse : List Stmt) (loop : Option LoopTargets)
    (header after : Nat) (graph : FlowGraph) :
    (Stmt.drawElse loop orelse header after graph).ending = some after := by
  cases orelse <;> rw [Stmt.drawElse]

theorem Stmt.drawElse_sprouts {loop : Option LoopTargets} {orelse : List Stmt}
    (suite : ∀ current graph, Ready graph current loop →
      (Stmt.drawAll loop orelse current graph).Depicts graph current loop (Stmt.ExecutesAll orelse))
    {header : Nat} {graph : FlowGraph} (ready : Ready graph none loop)
    (afterExists : header + 1 < graph.size) :
    Sprouts graph header (Stmt.drawElse loop orelse header (header + 1) graph).graph loop
      (Stmt.ExecutesAll orelse) (header + 1) := by
  have headerExists := Nat.lt_of_succ_lt afterExists
  cases orelse with
  | nil =>
    refine ⟨.addEdge .., fun onward next _ _ falls block _ => ?_⟩
    rw [Stmt.executesAll_nil, followed_nothing, falls]
    refine @reads_addEdgeFrom _ _ _ (some header) _ (fun _ same => ?_) afterExists
    exact Option.some.inj same ▸ headerExists
  | cons => exact .of_forked ready headerExists afterExists (suite (some graph.size) _)

theorem SimpleStmt.ending_of_not_isJump {form : SimpleStmt} (passes : ¬ form.isJump) :
    form.ending = .falls := by
  cases form <;> simp [SimpleStmt.isJump, SimpleStmt.ending] at passes ⊢

mutual

theorem Stmt.draw_depicts : ∀ (stmt : Stmt) {loop : Option LoopTargets} {current : Nat}
    {graph : FlowGraph}, Ready graph (some current) loop →
    (stmt.draw loop current graph).Depicts graph (some current) loop stmt.Executes
  | .simple _ _, _, _, _, ready => by
    rw [Stmt.draw]
    refine .single ready _ fun ready => ?_
    split
    next jumps => exact .jump ready jumps
    next passes =>
      rw [SimpleStmt.ending_of_not_isJump passes]
      exact .nothing ready
  | .branch _ _ body orelse, _, _, _, ready => by
    rw [Stmt.draw]
    refine .afterElement ready _ fun ready => ?_
    split
    next isAlone =>
      obtain rfl := List.isEmpty_iff.mp isAlone
      exact .branch_alone ready (Stmt.drawAll_depicts body _ _)
    · exact .branch ready (Stmt.drawAll_depicts body _ _) (Stmt.drawAll_depicts orelse _ _)
  | .forLoop _ _ iter _ body orelse, loop, _, _, ready =>
    (Depicts.ofLoop rfl ready (Stmt.drawAll_depicts body _ _)
      (Stmt.drawElse_sprouts (Stmt.drawAll_depicts orelse))
      (Stmt.drawElse_ending orelse loop _ _ _)).afterIterable iter
  | .whileLoop _ _ body orelse, loop, _, _, ready =>
    .ofLoop rfl ready (Stmt.drawAll_depicts body _ _)
      (Stmt.drawElse_sprouts (Stmt.drawAll_depicts orelse)) (Stmt.drawElse_ending orelse loop _ _ _)
  | .withBlock _ _ _ body, _, current, _, ready =>
    .afterElement ready _ (Stmt.drawAll_depicts body (some current) _)
  | .matchOn _ _ cases, _, _, _, ready =>
    .afterElement ready _ fun ready => .ofMatch ready (MatchCase.drawAll_sprouts cases)
  | .functionDef _ _, _, _, _, ready
  | .classDef _ _, _, _, _, ready
  | .tryBlock _ _ _ _ _, _, _, _, ready =>
    .single ready _ .nothing

theorem Stmt.drawAll_depicts : ∀ (body : List Stmt) {loop : Option LoopTargets}
    (current : Option Nat) (graph : FlowGraph), Ready graph current loop →
    (Stmt.drawAll loop body current graph).Depicts graph current loop (Stmt.ExecutesAll body)
  | [], _, _, _, ready => by
    exact .nothing ready
  | stmt :: rest, _, some _, _, ready => by
    have first := Stmt.draw_depicts stmt ready
    exact first.andThen ready (Stmt.drawAll_depicts rest _ _ (ready.after first))
  | stmt :: rest, _, none, _, ready => by
    have first := Depicts.unreached ready (Stmt.draw_depicts stmt)
    exact first.andThen ready (Stmt.drawAll_depicts rest _ _ (ready.after first))

theorem MatchCase.drawAll_sprouts : ∀ (cases : List MatchCase) {loop : Option LoopTargets}
    {current after : Nat} {graph : FlowGraph}, Ready graph none loop → current < graph.size →
    after < graph.size →
      Sprouts graph current (MatchCase.drawAll loop cases current after graph) loop
      (MatchCase.ExecutesOne cases) after
  | [], _, _, _, graph, _, _, _ => by
    refine ⟨.refl graph _, fun onward next _ _ _ block _ => ?_⟩
    have noRuns : Followed (MatchCase.ExecutesOne []) next = fun _ => False := by
      funext trace
      simp [Followed, MatchCase.ExecutesOne]
    rw [noRuns]
    congr
    funext block trace
    simp [Onward.add]
  | ⟨head, body⟩ :: rest, _, _, _, _, ready, currentExists, afterExists => by
    have clause := Sprouts.of_forked ready currentExists afterExists fun ready =>
      Depicts.afterElement ready (.case ⟨head, body⟩) (Stmt.drawAll_depicts body _ _)
    have sizes := clause.grows.size_le
    exact clause.trans ready currentExists afterExists (MatchCase.drawAll_sprouts rest
      (ready.grow clause.grows) (by omega) (by omega))

end

/-! ## The graph of a function -/

def Onward.atExit : Onward :=
  Onward.add (fun _ _ => False) (some FlowGraph.exit) (· = [])

theorem FlowGraph.path_iff_reads (graph : FlowGraph) (start : BlockId) (trace : List NodeId) :
    (∃ blocks, graph.Path start blocks exit ∧ graph.traceAlong blocks = trace) ↔
      graph.Reads .atExit start trace := by
  constructor
  · rintro ⟨blocks, path, rfl⟩
    generalize isExit : exit = last at path
    induction path with
    | here =>
      subst isExit
      have leaves : Onward.atExit exit [] := .inr ⟨rfl, rfl⟩
      simpa [traceAlong, elementsAlong] using Reads.leave leaves
    | step edge _ ih =>
      simpa [traceAlong, elementsAlong] using Reads.step ((mem_successors ..).mp edge) (ih isExit)
  · intro reads
    induction reads with
    | leave leaves =>
      obtain ⟨⟨⟩⟩ | ⟨⟨rfl⟩, rfl⟩ := leaves
      exact ⟨_, .here _, by simp [traceAlong, elementsAlong]⟩
    | step edge _ ih =>
      obtain ⟨blocks, path, rfl⟩ := ih
      exact ⟨_, .step ((mem_successors ..).mpr edge) path, by simp [traceAlong, elementsAlong]⟩

theorem Stmt.graph_reads (body : List Stmt) :
    (Stmt.graph body).Reads .atExit entry = Stmt.Execution body := by
  have leads (form : SimpleStmt) : jumpTarget none form = exit := by cases form <;> rfl
  have ready : Ready .empty none none := ⟨nofun, fun form => by rw [leads]; decide⟩
  have sprouts : Sprouts .empty entry (Stmt.graph body) none (Stmt.ExecutesAll body)
      exit := .of_forked ready (by decide) (by decide) (Stmt.drawAll_depicts body _ _)
  have isFree (block : BlockId) (differs : some exit ≠ some block) (trace : List NodeId) :
      ¬ Onward.atExit block trace := by
    simp [Onward.atExit, Onward.add, differs]
  have atExit : (Stmt.graph body).Reads .atExit exit = (· = []) := by
    rw [reads_of_isBlank (sprouts.grows.isBlank exit (by decide) (by decide) ⟨rfl, nofun⟩)]
    exact Onward.add_self fun _ => not_false
  have fits : Fits .atExit .empty none := by
    rintro block trace (⟨⟨⟩⟩ | isNew)
    exact isFree block (by rintro ⟨rfl⟩; exact absurd isNew (by decide)) trace
  rw [sprouts.reads .atExit (fun _ rest => rest = []) fits (fun form _ => by rw [leads, atExit])
    atExit.symm _ (by decide), reads_of_isBlank ⟨rfl, fun _ => List.not_mem_nil⟩,
    Onward.add_self (isFree _ (by decide))]
  funext trace
  simp [Followed, Stmt.Execution, eq_comm]

/-- What is read along the paths from entry to exit are exactly the executions of the body. -/
theorem FunctionDef.flow_paths_iff_execution (function : FunctionDef)
    (noTry : Stmt.containTry function.body = false) :
    ∃ graph, function.flow? = some graph ∧ ∀ trace,
      (∃ blocks, graph.Path FlowGraph.entry blocks FlowGraph.exit ∧
        graph.traceAlong blocks = trace) ↔ Stmt.Execution function.body trace := by
  refine ⟨Stmt.graph function.body, ?_, fun trace => ?_⟩
  · rw [FunctionDef.flow?, noTry, if_neg Bool.false_ne_true]
  · rw [FlowGraph.path_iff_reads, Stmt.graph_reads]

def FunctionDef.searching : FunctionDef :=
  let mark (id : NodeId) : Mark := ⟨id, ⟨0, 0⟩⟩
  let found (id : NodeId) : Expr := .name ⟨mark id, "found"⟩
  ⟨⟨mark 0, ⟨mark 1, "search"⟩, [], none, [], false⟩,
    [.whileLoop (mark 2) (found 3)
        [.branch (mark 4) (found 5) [.simple (mark 6) .leaveLoop] []]
        [.simple (mark 7) (.ret none)],
      .simple (mark 8) .pass]⟩

theorem FunctionDef.searching_path :
    Stmt.containTry FunctionDef.searching.body = false ∧
      ∃ graph, FunctionDef.searching.flow? = some graph ∧
        ∃ blocks, graph.Path FlowGraph.entry blocks FlowGraph.exit ∧
          graph.traceAlong blocks = [2, 4, 2, 4, 6, 8] := by
  have noTry : Stmt.containTry FunctionDef.searching.body = false := by decide
  obtain ⟨graph, drawn, paths⟩ :=
    FunctionDef.flow_paths_iff_execution FunctionDef.searching noTry
  refine ⟨noTry, graph, drawn, (paths _).mpr ⟨_, .falls, Or.inr ⟨_, _, rfl,
    Rounds.again (Or.inr ⟨_, _, rfl, ⟨[], rfl, Or.inr ⟨rfl, rfl⟩⟩, rfl, rfl⟩) (Or.inl rfl)
      (Rounds.breakOut (Or.inl ⟨⟨_, rfl, Or.inl (Or.inl ⟨⟨rfl, rfl⟩, ?_⟩)⟩, ?_⟩)),
    Or.inr ⟨_, _, rfl, ⟨rfl, rfl⟩, rfl, rfl⟩⟩, ?_⟩⟩
  · decide
  · decide
  · rfl

end PyStatic
