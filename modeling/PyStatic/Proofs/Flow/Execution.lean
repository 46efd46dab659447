import PyStatic.Flow.Graph
import Mathlib.Data.List.Basic

/-!
Contract: the executions of a suite, said by the statements alone and without a graph.

Every test may have either outcome and every loop may go round any number of times. The iterable and
the target of a `for` loop are steps of their own, and no elements of a flow graph.
-/

namespace PyStatic

/-- Control falls out, breaks or continues the loop around, or leaves the function. -/
inductive Ending where
  | falls
  | breaks
  | continues
  | leaves
  deriving DecidableEq, Repr

inductive Step where
  | element (element : Element)
  | iterable (expr : Expr)
  | target (expr : Expr)

namespace Step

def node? : Step → Option NodeId
  | element passed => some passed.id
  | iterable _ => none
  | target _ => none

def trace (steps : List Step) : List NodeId :=
  steps.filterMap node?

@[simp] theorem trace_append (first second : List Step) :
    trace (first ++ second) = trace first ++ trace second :=
  List.filterMap_append

@[simp] theorem trace_element_cons (element : Element) (steps : List Step) :
    trace (Step.element element :: steps) = element.id :: trace steps :=
  rfl

end Step

/-- Which steps may be taken, and how control leaves after them. -/
abbrev Executions := List Step → Ending → Prop

def SimpleStmt.ending : SimpleStmt → Ending
  | ret _ | raise _ _ => .leaves
  | leaveLoop => .breaks
  | nextRound => .continues
  | _ => .falls

/-- The rounds of a loop, from a visit of its header on. -/
inductive Rounds (header : Step) (begins : List Step) (body orelse : Executions) :
    List Step → Ending → Prop where
  | finish {steps : List Step} {ending : Ending} (run : orelse steps ending) :
      Rounds header begins body orelse (header :: steps) ending
  | again {steps more : List Step} {ending final : Ending} (run : body steps ending)
      (goesOn : ending = .falls ∨ ending = .continues)
      (next : Rounds header begins body orelse more final) :
      Rounds header begins body orelse (header :: (begins ++ steps ++ more)) final
  | breakOut {steps : List Step} (run : body steps .breaks) :
      Rounds header begins body orelse (header :: (begins ++ steps)) .falls
  | leave {steps : List Step} (run : body steps .leaves) :
      Rounds header begins body orelse (header :: (begins ++ steps)) .leaves

mutual

/-- A definition is passed and its body not entered. -/
def Stmt.Executes : Stmt → Executions
  | .simple mark form, steps, ending =>
    steps = [.element (.stmt (.simple mark form))] ∧ ending = form.ending
  | .functionDef head body, steps, ending =>
    steps = [.element (.stmt (.functionDef head body))] ∧ ending = .falls
  | .classDef head body, steps, ending =>
    steps = [.element (.stmt (.classDef head body))] ∧ ending = .falls
  | .branch mark test body orelse, steps, ending =>
    ∃ rest, steps = .element (.stmt (.branch mark test body orelse)) :: rest ∧
      (Stmt.ExecutesAll body rest ending ∨ Stmt.ExecutesAll orelse rest ending)
  | .forLoop mark target iter isAsync body orelse, steps, ending =>
    ∃ rest, steps = .iterable iter :: rest ∧
      Rounds (.element (.stmt (.forLoop mark target iter isAsync body orelse)))
        [.target target] (Stmt.ExecutesAll body) (Stmt.ExecutesAll orelse) rest ending
  | .whileLoop mark test body orelse, steps, ending =>
    Rounds (.element (.stmt (.whileLoop mark test body orelse))) []
      (Stmt.ExecutesAll body) (Stmt.ExecutesAll orelse) steps ending
  | .tryBlock mark body handlers orelse finalbody, steps, ending =>
    steps = [.element (.stmt (.tryBlock mark body handlers orelse finalbody))] ∧ ending = .falls
  | .withBlock mark items isAsync body, steps, ending =>
    ∃ rest, steps = .element (.stmt (.withBlock mark items isAsync body)) :: rest ∧
      Stmt.ExecutesAll body rest ending
  | .matchOn mark subject cases, steps, ending =>
    ∃ rest, steps = .element (.stmt (.matchOn mark subject cases)) :: rest ∧
      (rest = [] ∧ ending = .falls ∨ MatchCase.ExecutesOne cases rest ending)

def Stmt.ExecutesAll : List Stmt → Executions
  | [], steps, ending => steps = [] ∧ ending = .falls
  | stmt :: rest, steps, ending =>
    (stmt.Executes steps ending ∧ ending ≠ .falls) ∨
      ∃ first others, steps = first ++ others ∧ stmt.Executes first .falls ∧
        Stmt.ExecutesAll rest others ending

def MatchCase.ExecutesOne : List MatchCase → Executions
  | [], _, _ => False
  | ⟨head, body⟩ :: rest, steps, ending =>
    (∃ others, steps = .element (.case ⟨head, body⟩) :: others ∧
      Stmt.ExecutesAll body others ending) ∨ MatchCase.ExecutesOne rest steps ending

end

theorem Stmt.executesAll_nil :
    Stmt.ExecutesAll [] = fun steps ending => steps = [] ∧ ending = .falls :=
  rfl

/-- However its suite ends, the function is left. -/
def Stmt.Execution (body : List Stmt) (trace : List NodeId) : Prop :=
  ∃ steps ending, Stmt.ExecutesAll body steps ending ∧ Step.trace steps = trace

abbrev Resumption := Ending → List NodeId → Prop

namespace Executions

def Followed (runs : Executions) (next : Resumption) (trace : List NodeId) : Prop :=
  ∃ steps ending rest, runs steps ending ∧ next ending rest ∧ trace = Step.trace steps ++ rest

theorem followed_congr {runs : Executions} {next other : Resumption} {trace : List NodeId}
    (agree : ∀ steps ending rest, runs steps ending → rest.length ≤ trace.length →
      (next ending rest ↔ other ending rest)) :
    runs.Followed next trace ↔ runs.Followed other trace := by
  have shorter (steps : List Step) (rest : List NodeId)
      (split : trace = Step.trace steps ++ rest) : rest.length ≤ trace.length := by
    simp [split]
  constructor
  · rintro ⟨steps, ending, rest, run, follows, split⟩
    exact ⟨steps, ending, rest, run,
      (agree steps ending rest run (shorter steps rest split)).mp follows, split⟩
  · rintro ⟨steps, ending, rest, run, follows, split⟩
    exact ⟨steps, ending, rest, run,
      (agree steps ending rest run (shorter steps rest split)).mpr follows, split⟩

def Resume (falls : List NodeId → Prop) (next : Resumption) : Resumption
  | .falls => falls
  | ending => next ending

theorem followed_cons_iff (stmt : Stmt) (rest : List Stmt) (next : Resumption)
    (trace : List NodeId) :
    Followed (Stmt.ExecutesAll (stmt :: rest)) next trace ↔
      Followed stmt.Executes (Resume (Followed (Stmt.ExecutesAll rest) next) next) trace := by
  constructor
  · rintro ⟨steps, ending, after, run, follows, rfl⟩
    rw [Stmt.ExecutesAll] at run
    rcases run with ⟨run, jumps⟩ | ⟨first, others, rfl, run, runOthers⟩
    · refine ⟨steps, ending, after, run, ?_, rfl⟩
      cases ending with
      | falls => exact absurd rfl jumps
      | breaks => exact follows
      | continues => exact follows
      | leaves => exact follows
    · exact ⟨first, .falls, Step.trace others ++ after, run,
        ⟨others, ending, after, runOthers, follows, rfl⟩, by simp⟩
  · rintro ⟨steps, ending, after, run, follows, rfl⟩
    by_cases fallsOut : ending = .falls
    · subst fallsOut
      obtain ⟨others, final, last, runOthers, followsOthers, rfl⟩ := follows
      refine ⟨steps ++ others, final, last, ?_, followsOthers, by simp⟩
      rw [Stmt.ExecutesAll]
      exact .inr ⟨steps, others, rfl, run, runOthers⟩
    · refine ⟨steps, ending, after, ?_, ?_, rfl⟩
      · rw [Stmt.ExecutesAll]
        exact .inl ⟨run, fallsOut⟩
      · cases ending with
        | falls => exact absurd rfl fallsOut
        | breaks => exact follows
        | continues => exact follows
        | leaves => exact follows

def AfterRound (header : List NodeId → Prop) (next : Resumption) : Resumption
  | .falls => header
  | .continues => header
  | .breaks => next .falls
  | .leaves => next .leaves

def ReadsLoop (node : NodeId) (body orelse : Executions) (next : Resumption)
    (header : List NodeId → Prop) (trace : List NodeId) : Prop :=
  ∃ rest, trace = node :: rest ∧
    (orelse.Followed next rest ∨ body.Followed (AfterRound header next) rest)

theorem followed_rounds_iff {element : Element} {begins : List Step}
    (silent : Step.trace begins = []) (body orelse : Executions) (next : Resumption)
    (trace : List NodeId) :
    Followed (Rounds (.element element) begins body orelse) next trace ↔
      ReadsLoop element.id body orelse next
        (Followed (Rounds (.element element) begins body orelse) next) trace := by
  constructor
  · rintro ⟨steps, ending, after, run, follows, rfl⟩
    cases run with
    | @finish steps _ run =>
      exact ⟨Step.trace steps ++ after, rfl, .inl ⟨steps, ending, after, run, follows, rfl⟩⟩
    | @again steps more roundEnding _ run goesOn rounds =>
      refine ⟨Step.trace steps ++ (Step.trace more ++ after), by simp [silent],
        .inr ⟨steps, roundEnding, Step.trace more ++ after, run, ?_, rfl⟩⟩
      rcases goesOn with rfl | rfl
      · exact ⟨more, ending, after, rounds, follows, rfl⟩
      · exact ⟨more, ending, after, rounds, follows, rfl⟩
    | @breakOut steps run =>
      exact ⟨Step.trace steps ++ after, by simp [silent],
        .inr ⟨steps, .breaks, after, run, follows, rfl⟩⟩
    | @leave steps run =>
      exact ⟨Step.trace steps ++ after, by simp [silent],
        .inr ⟨steps, .leaves, after, run, follows, rfl⟩⟩
  · rintro ⟨rest, rfl, ⟨steps, ending, after, run, follows, rfl⟩ |
      ⟨steps, ending, after, run, follows, rfl⟩⟩
    · exact ⟨.element element :: steps, ending, after, .finish run, follows, rfl⟩
    · cases ending with
      | falls =>
        obtain ⟨more, final, last, runMore, followsMore, rfl⟩ := follows
        exact ⟨.element element :: (begins ++ steps ++ more), final, last,
          .again run (.inl rfl) runMore, followsMore, by simp [silent]⟩
      | continues =>
        obtain ⟨more, final, last, runMore, followsMore, rfl⟩ := follows
        exact ⟨.element element :: (begins ++ steps ++ more), final, last,
          .again run (.inr rfl) runMore, followsMore, by simp [silent]⟩
      | breaks =>
        exact ⟨.element element :: (begins ++ steps), .falls, after, .breakOut run, follows,
          by simp [silent]⟩
      | leaves =>
        exact ⟨.element element :: (begins ++ steps), .leaves, after, .leave run, follows,
          by simp [silent]⟩

/-- Every visit of the header reads its node, so what follows is shorter. -/
theorem readsLoop_unique {node : NodeId} {body orelse : Executions} {next : Resumption}
    {first second : List NodeId → Prop}
    (firstReads : ∀ trace, first trace ↔ ReadsLoop node body orelse next first trace)
    (secondReads : ∀ trace, second trace ↔ ReadsLoop node body orelse next second trace)
    (trace : List NodeId) : first trace ↔ second trace := by
  induction measured : trace.length using Nat.strongRecOn generalizing trace with
  | ind size ih =>
    rw [firstReads, secondReads]
    refine exists_congr fun rest => and_congr_right fun split => or_congr_right ?_
    apply followed_congr
    intro steps ending after _ shorter
    have smaller : after.length < size := by
      rw [split, List.length_cons] at measured
      omega
    cases ending with
    | falls => exact ih after.length smaller after rfl
    | continues => exact ih after.length smaller after rfl
    | breaks => exact Iff.rfl
    | leaves => exact Iff.rfl

end Executions

end PyStatic
