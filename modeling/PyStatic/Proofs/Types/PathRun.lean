import PyStatic.Proofs.Flow.Execution
import PyStatic.Proofs.Types.TypedSyntax

/-!
Contract: the types found by running one path of a body, with no ways to join.

A path is run with the evaluation and assignment of the walk. It stops for good where a tracked
variable is read that is not assigned; the types found before that count.
-/

namespace PyStatic

open List

/-- The types of expressions, and the state at its end unless it was stopped. -/
structure PathRun where
  notes : List TypeNote
  exit : Option TypeState

namespace PathRun

variable {next : TypeState → PathRun}

def stay (state : TypeState) : PathRun :=
  ⟨[], some state⟩

def andThen (run : PathRun) (next : TypeState → PathRun) : PathRun :=
  match run.exit with
  | some state => ⟨run.notes ++ (next state).notes, (next state).exit⟩
  | none => run

theorem exit_andThen {run : PathRun} {state : TypeState} :
    (run.andThen next).exit = some state ↔
      ∃ middle, run.exit = some middle ∧ (next middle).exit = some state := by
  unfold andThen
  cases ended : run.exit with
  | none => simp [ended]
  | some => simp

theorem mem_notes_andThen {run : PathRun} {note : TypeNote} :
    note ∈ (run.andThen next).notes ↔
      note ∈ run.notes ∨ ∃ middle, run.exit = some middle ∧ note ∈ (next middle).notes := by
  unfold andThen
  cases run.exit with
  | none => simp
  | some => simp

theorem andThen_stay (run : PathRun) : run.andThen stay = run := by
  obtain ⟨notes, exit⟩ := run
  cases exit with
  | none => rfl
  | some => simp [andThen, stay]

theorem andThen_assoc (run : PathRun) (next last : TypeState → PathRun) :
    (run.andThen next).andThen last = run.andThen fun state => (next state).andThen last := by
  obtain ⟨notes, exit⟩ := run
  cases exit with
  | none => rfl
  | some state =>
    simp only [andThen]
    cases ended : (next state).exit with
    | none => simp [ended]
    | some => simp

end PathRun

def BodyContext.visitOnPath (context : BodyContext) (state : TypeState) :
    List TypeVisit → PathRun
  | [] => .stay state
  | visit :: rest =>
    if visit.isAssigned context state then
      let others := context.visitOnPath state rest
      ⟨visit.note context state :: others.notes, others.exit⟩
    else ⟨[], none⟩

def BodyContext.assignOnPath (context : BodyContext) (type : Option ValueType) :
    TypeState → List Expr → PathRun
  | state, [] => .stay state
  | state, target :: rest =>
    let first : PathRun := match target.name? with
      | some name =>
        ⟨[(name.id, type.getD .any)], some (context.assign type state target)⟩
      | none => context.visitOnPath state (target.typeVisits .target)
    first.andThen fun state => context.assignOnPath type state rest

def BodyContext.runSimple (context : BodyContext) (form : SimpleStmt) (state : TypeState) :
    PathRun :=
  (context.visitOnPath state form.typeVisits).andThen fun state =>
    match form.assignment? with
    | some (targets, value) =>
      context.assignOnPath (context.eval state value) state targets
    | none => .stay state

/-- The iterable and target of a `for` loop have steps of their own. -/
def BodyContext.runHeader (context : BodyContext) (state : TypeState) : Stmt → PathRun
  | .simple _ form => context.runSimple form state
  | .functionDef head _ => context.visitOnPath state head.typeVisits
  | .classDef head _ => context.visitOnPath state head.typeVisits
  | .branch _ test _ _ | .whileLoop _ test _ _ =>
    context.visitOnPath state (test.typeVisits .read)
  | .withBlock _ items _ _ => context.visitOnPath state (items.flatMap (·.typeVisits))
  | .matchOn _ subject _ => context.visitOnPath state (subject.typeVisits .read)
  | .forLoop _ _ _ _ _ _ | .tryBlock _ _ _ _ _ => .stay state

namespace Step

def run (context : BodyContext) (state : TypeState) : Step → PathRun
  | element (.stmt stmt) => context.runHeader state stmt
  | element (.case clause) => context.visitOnPath state clause.head.typeVisits
  | iterable expr => context.visitOnPath state (expr.typeVisits .read)
  | target expr => context.visitOnPath state (expr.typeVisits .target)

/-- Runs a path on one state, with nothing joined. -/
def runAll (context : BodyContext) : List Step → TypeState → PathRun
  | [], state => .stay state
  | step :: rest, state => (step.run context state).andThen (runAll context rest)

theorem runAll_cons (context : BodyContext) (step : Step) (rest : List Step) (state : TypeState) :
    runAll context (step :: rest) state =
      (step.run context state).andThen (runAll context rest) :=
  rfl

theorem runAll_singleton (context : BodyContext) (step : Step) (state : TypeState) :
    runAll context [step] state = step.run context state :=
  PathRun.andThen_stay _

theorem runAll_append (context : BodyContext) (first second : List Step) (state : TypeState) :
    runAll context (first ++ second) state =
      (runAll context first state).andThen (runAll context second) := by
  induction first generalizing state with
  | nil => rfl
  | cons _ _ ih =>
    rw [cons_append, runAll_cons, runAll_cons, PathRun.andThen_assoc]
    exact congrArg _ (funext ih)

end Step

def NotedIn (notes pathNotes : List TypeNote) : Prop :=
  ∀ note ∈ pathNotes, ∃ type, (note.1, type) ∈ notes ∧ type.Covers note.2

section NotedIn

variable {notes others pathNotes : List TypeNote}

theorem notedIn_nil (notes : List TypeNote) : NotedIn notes [] := by
  intro note isIn
  exact absurd isIn (not_mem_nil)

theorem NotedIn.mono (noted : NotedIn notes pathNotes) (isSubset : notes ⊆ others) :
    NotedIn others pathNotes := by
  intro note isIn
  obtain ⟨type, isNoted, covers⟩ := noted note isIn
  exact ⟨type, isSubset isNoted, covers⟩

theorem NotedIn.of_subset {fewer : List TypeNote} (noted : NotedIn notes pathNotes)
    (isSubset : fewer ⊆ pathNotes) : NotedIn notes fewer :=
  fun note isIn => noted note (isSubset isIn)

theorem NotedIn.andThen {run : PathRun} {next : TypeState → PathRun}
    (first : NotedIn notes run.notes)
    (later : ∀ state, run.exit = some state → NotedIn notes (next state).notes) :
    NotedIn notes (run.andThen next).notes := by
  intro note isIn
  rcases PathRun.mem_notes_andThen.mp isIn with isFirst | ⟨state, ended, isLater⟩
  · exact first note isFirst
  · exact later state ended note isLater

end NotedIn

section Covered

variable {context : BodyContext} {wide narrow after : TypeState} {visits : List TypeVisit}
  {wideType narrowType : ValueType}

theorem BodyContext.exit_visitOnPath
    (ended : (context.visitOnPath narrow visits).exit = some after) :
    after = narrow ∧ ∀ visit ∈ visits, visit.isAssigned context narrow = true := by
  induction visits with
  | nil => exact ⟨(Option.some.inj ended).symm, by simp⟩
  | cons visit _ ih =>
    unfold visitOnPath at ended
    by_cases assigned : visit.isAssigned context narrow = true
    · rw [if_pos assigned] at ended
      obtain ⟨same, restAssigned⟩ := ih ended
      exact ⟨same, forall_mem_cons.mpr ⟨assigned, restAssigned⟩⟩
    · rw [if_neg assigned] at ended
      exact absurd ended (by simp)

theorem CoveredInOrder.notedIn (covered : CoveredInOrder context wide narrow visits) :
    NotedIn (visits.map (·.note context wide))
      (context.onPath.visitOnPath narrow visits).notes := by
  induction visits with
  | nil => exact notedIn_nil _
  | cons visit _ ih =>
    unfold BodyContext.visitOnPath
    by_cases assigned : visit.isAssigned context.onPath narrow = true
    · obtain ⟨covers, restCovered⟩ := covered assigned
      rw [if_pos assigned, map_cons]
      intro note isIn
      rcases mem_cons.mp isIn with rfl | isLater
      · exact ⟨_, mem_cons_self .., covers⟩
      · exact (ih restCovered).mono (subset_cons_self ..) note isLater
    · rw [if_neg assigned]
      exact notedIn_nil _

theorem BodyContext.assign_covers (covers : wide.Covers narrow)
    (typeCovers : wideType.Covers narrowType) (target : Expr) :
    TypeState.Covers (context.assign (some wideType) wide target)
      (context.onPath.assign (some narrowType) narrow target) := by
  unfold assign onPath
  dsimp only
  cases target.name?.bind fun name => context.model.symbolAt? name.id with
  | none => exact covers
  | some symbol =>
    dsimp only
    by_cases isTracked : context.tracked.contains symbol = true
    · rw [if_pos isTracked, if_pos isTracked]
      exact covers.insert symbol typeCovers
    · rw [if_neg isTracked, if_neg isTracked]
      exact covers

theorem BodyContext.assign_of_no_name (type : Option ValueType) (state : TypeState) {target : Expr}
    (isNoName : target.name? = none) : context.assign type state target = state := by
  unfold assign
  rw [isNoName]
  rfl

variable (parameters : context.ParametersWellFormed)

include parameters

theorem BodyContext.assignOnPath_covered (typeCovers : wideType.Covers narrowType)
    (targets : List Expr) (covers : wide.Covers narrow) :
    NotedIn (context.assignNotesOfAll (some wideType) wide targets)
        (context.onPath.assignOnPath (some narrowType) narrow targets).notes ∧
      ∀ after, (context.onPath.assignOnPath (some narrowType) narrow targets).exit = some after →
        TypeState.Covers (targets.foldl (context.assign (some wideType)) wide) after := by
  induction targets generalizing wide narrow with
  | nil =>
    refine ⟨notedIn_nil _, fun after ended => ?_⟩
    rw [← Option.some.inj ended]
    exact covers
  | cons target _ ih =>
    have nextCovers := context.assign_covers covers typeCovers target
    obtain ⟨restNoted, restCovers⟩ := ih nextCovers
    unfold assignOnPath assignNotesOfAll assignNotes
    rw [foldl_cons]
    cases named : target.name? with
    | some =>
      refine ⟨NotedIn.andThen ?_ ?_, ?_⟩
      · intro note isIn
        rw [mem_singleton.mp isIn]
        exact ⟨wideType, by simp, typeCovers⟩
      · intro state ended
        rw [← Option.some.inj ended]
        exact restNoted.mono (subset_append_right ..)
      · intro after ended
        obtain ⟨middle, same, ended⟩ := PathRun.exit_andThen.mp ended
        rw [← Option.some.inj same] at ended
        exact restCovers after ended
    | none =>
      -- nothing is tracked of other targets, so neither state changes
      rw [context.onPath.assign_of_no_name _ _ named] at restNoted restCovers
      have visited := ((target.typed .target).coverable parameters covers).notedIn
      refine ⟨NotedIn.andThen (visited.mono (subset_append_left ..)) ?_, ?_⟩
      · intro state ended
        rw [(exit_visitOnPath ended).1]
        exact restNoted.mono (subset_append_right ..)
      · intro after ended
        obtain ⟨middle, visitsEnd, ended⟩ := PathRun.exit_andThen.mp ended
        rw [(exit_visitOnPath visitsEnd).1] at ended
        exact restCovers after ended

end Covered

namespace BodyContext

variable (context : BodyContext)

def assigned (state : TypeState) (form : SimpleStmt) : TypeState :=
  match form.assignment? with
  | some (targets, value) => targets.foldl (context.assign (context.eval state value)) state
  | none => state

end BodyContext

theorem SimpleStmt.typeVisits_subset_of_assignment {form : SimpleStmt} {targets : List Expr}
    {value : Expr} (assigns : form.assignment? = some (targets, value)) :
    value.typeVisits .read ⊆ form.typeVisits := by
  cases form with
  | assign =>
    obtain ⟨-, rfl⟩ := Prod.mk.inj (Option.some.inj assigns)
    exact Subset.refl _
  | annotatedAssign _ _ value =>
    cases value with
    | none => exact absurd assigns (by simp [assignment?])
    | some =>
      obtain ⟨-, rfl⟩ := Prod.mk.inj (Option.some.inj assigns)
      exact subset_append_right ..
  | _ => exact absurd assigns (by simp [assignment?])

section Simple

variable {context : BodyContext} {wide narrow : TypeState}
  (parameters : context.ParametersWellFormed) (covers : wide.Covers narrow)

include parameters covers

theorem SimpleStmt.coveredInOrder (form : SimpleStmt) :
    CoveredInOrder context wide narrow form.typeVisits := by
  cases form with
  | assign _ value | expr value => exact (value.typed .read).coverable parameters covers
  | annotatedAssign target hint value =>
    cases value with
    | none => exact ((hint.typed .read).append (target.typed .target)).coverable parameters covers
    | some value =>
      exact ((hint.typed .read).append (value.typed .read)).coverable parameters covers
  | augmentedAssign target _ value =>
    exact ((target.typed .read).append (value.typed .read)).coverable parameters covers
  | ret value => exact (Expr.typedOfOption value).coverable parameters covers
  | delete targets => exact (Expr.typedOfAll targets .target).coverable parameters covers
  | raise exception cause =>
    exact ((Expr.typedOfOption exception).append (Expr.typedOfOption cause)).coverable parameters
      covers
  | assert test message =>
    exact ((test.typed .read).append (Expr.typedOfOption message)).coverable parameters covers
  | _ => trivial

theorem BodyContext.runSimple_covered (form : SimpleStmt) :
    NotedIn (context.simpleNotes wide form) (context.onPath.runSimple form narrow).notes ∧
      ∀ after, (context.onPath.runSimple form narrow).exit = some after →
        TypeState.Covers (context.assigned wide form) after := by
  have visited := (form.coveredInOrder parameters covers).notedIn
  unfold simpleNotes runSimple assigned
  cases assigns : form.assignment? with
  | none =>
    refine ⟨NotedIn.andThen (visited.mono (subset_append_left ..)) ?_, ?_⟩
    · exact fun state _ => notedIn_nil _
    · intro after ended
      obtain ⟨middle, visitsEnd, ended⟩ := PathRun.exit_andThen.mp ended
      rw [← Option.some.inj ended, (exit_visitOnPath visitsEnd).1]
      exact covers
  | some assignment =>
    obtain ⟨targets, value⟩ := assignment
    -- the path gets to the assignment only when all reads are assigned
    have assignmentCovered (state : TypeState)
        (ended : (context.onPath.visitOnPath narrow form.typeVisits).exit = some state) :
        NotedIn (context.assignNotesOfAll (context.eval wide value) wide targets)
            (context.onPath.assignOnPath (context.onPath.eval state value) state targets).notes ∧
          ∀ after,
            (context.onPath.assignOnPath (context.onPath.eval state value) state targets).exit =
              some after →
            TypeState.Covers
              (targets.foldl (context.assign (context.eval wide value)) wide) after := by
      obtain ⟨rfl, allAssigned⟩ := exit_visitOnPath ended
      obtain ⟨narrowType, narrowEval, wideType, wideEval, typeCovers⟩ :=
        evalCovers_of_assigned parameters covers value fun visit isIn =>
          allAssigned visit (SimpleStmt.typeVisits_subset_of_assignment assigns isIn)
      rw [narrowEval, wideEval]
      exact assignOnPath_covered parameters typeCovers targets covers
    refine ⟨NotedIn.andThen (visited.mono (subset_append_left ..)) ?_, ?_⟩
    · intro state ended
      exact (assignmentCovered state ended).1.mono (subset_append_right ..)
    · intro after ended
      obtain ⟨middle, visitsEnd, ended⟩ := PathRun.exit_andThen.mp ended
      exact (assignmentCovered middle visitsEnd).2 after ended

end Simple

end PyStatic
