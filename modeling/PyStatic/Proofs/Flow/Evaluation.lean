import PyStatic.Flow.Graph
import PyStatic.Proofs.Syntax.BindingNodes

/-!
Contract: what completed evaluations bind and delete.

Values play no part: a test may come out either way, and an iterable may have any number of items.
What is told of an evaluation is at which nodes names are bound or deleted. An evaluation that an
exception cuts short is not completed.
-/

namespace PyStatic

/-- Which names evaluation binds or deletes, what it may leave out and what it repeats. -/
inductive Evaluation where
  | binding (bound : List NodeId)
  | andThen (first second : Evaluation)
  | perhaps (inner : Evaluation)
  | either (first second : Evaluation)
  | rounds (round : Evaluation)
  | anything

namespace Evaluation

inductive Rounds (round : List NodeId → Prop) : List NodeId → Prop where
  | done : Rounds round []
  | next {first rest : List NodeId} (once : round first) (others : Rounds round rest) :
      Rounds round (first ++ rest)

/-- At these nodes, in this order. -/
def Runs : Evaluation → List NodeId → Prop
  | binding bound, nodes => nodes = bound
  | andThen first second, nodes =>
    ∃ earlier later, first.Runs earlier ∧ second.Runs later ∧ nodes = earlier ++ later
  | perhaps inner, nodes => nodes = [] ∨ inner.Runs nodes
  | either first second, nodes => first.Runs nodes ∨ second.Runs nodes
  | rounds round, nodes => Rounds round.Runs nodes
  | anything, _ => True

/-- Whether every evaluation binds or deletes at one of the nodes. -/
def surely (hit : NodeId → Bool) : Evaluation → Bool
  | binding bound => bound.any hit
  | andThen first second => first.surely hit || second.surely hit
  | either first second => first.surely hit && second.surely hit
  | perhaps _ | rounds _ | anything => false

theorem exists_runs (evaluation : Evaluation) : ∃ nodes, evaluation.Runs nodes := by
  induction evaluation with
  | binding bound => exact ⟨bound, rfl⟩
  | andThen _ _ first second =>
    obtain ⟨earlier, isFirst⟩ := first
    obtain ⟨later, isSecond⟩ := second
    exact ⟨earlier ++ later, earlier, later, isFirst, isSecond, rfl⟩
  | perhaps => exact ⟨[], .inl rfl⟩
  | either _ _ first =>
    obtain ⟨nodes, isFirst⟩ := first
    exact ⟨nodes, .inl isFirst⟩
  | rounds => exact ⟨[], .done⟩
  | anything => exact ⟨[], trivial⟩

variable {hit : NodeId → Bool}

theorem any_of_surely {evaluation : Evaluation} (sure : evaluation.surely hit = true)
    {nodes : List NodeId} (runs : evaluation.Runs nodes) : nodes.any hit = true := by
  induction evaluation generalizing nodes with
  | binding => exact runs ▸ sure
  | andThen _ _ first second =>
    obtain ⟨earlier, later, isFirst, isSecond, rfl⟩ := runs
    rw [List.any_append, Bool.or_eq_true]
    exact (Bool.or_eq_true_iff.mp sure).imp (first · isFirst) (second · isSecond)
  | either _ _ first second =>
    obtain ⟨sureFirst, sureSecond⟩ := Bool.and_eq_true_iff.mp sure
    exact runs.elim (first sureFirst) (second sureSecond)
  | perhaps | rounds | anything => exact absurd sure Bool.false_ne_true

theorem exists_runs_avoiding {evaluation : Evaluation} (unsure : evaluation.surely hit = false) :
    ∃ nodes, evaluation.Runs nodes ∧ nodes.any hit = false := by
  induction evaluation with
  | binding bound => exact ⟨bound, rfl, unsure⟩
  | andThen _ _ first second =>
    obtain ⟨unsureFirst, unsureSecond⟩ := Bool.or_eq_false_iff.mp unsure
    obtain ⟨earlier, isFirst, avoidsFirst⟩ := first unsureFirst
    obtain ⟨later, isSecond, avoidsSecond⟩ := second unsureSecond
    refine ⟨earlier ++ later, ⟨earlier, later, isFirst, isSecond, rfl⟩, ?_⟩
    rw [List.any_append, avoidsFirst, avoidsSecond, Bool.or_false]
  | either _ _ first second =>
    rcases Bool.and_eq_false_iff.mp unsure with unsure | unsure
    · obtain ⟨nodes, isFirst, avoids⟩ := first unsure
      exact ⟨nodes, .inl isFirst, avoids⟩
    · obtain ⟨nodes, isSecond, avoids⟩ := second unsure
      exact ⟨nodes, .inr isSecond, avoids⟩
  | perhaps => exact ⟨[], .inl rfl, rfl⟩
  | rounds => exact ⟨[], .done, rfl⟩
  | anything => exact ⟨[], trivial, rfl⟩

theorem surely_iff (evaluation : Evaluation) :
    evaluation.surely hit = true ↔ ∀ nodes, evaluation.Runs nodes → nodes.any hit = true := by
  refine ⟨fun sure _ => any_of_surely sure, fun all => ?_⟩
  rw [← Bool.not_eq_false]
  intro unsure
  obtain ⟨nodes, runs, avoids⟩ := exists_runs_avoiding unsure
  exact Bool.false_ne_true (avoids.symm.trans (all nodes runs))

end Evaluation

open Evaluation

mutual

def Expr.evaluation : Expr → TargetUse → Evaluation
  | .name _, .read => binding []
  | .name identifier, .target => binding [identifier.id]
  | .member _ value _, .read => value.evaluation .read
  | .member _ value attr, .target => (value.evaluation .read).andThen (binding [attr.id])
  | .subscript _ value slices, _ =>
    (value.evaluation .read).andThen (Expr.evaluationOfAll slices .read)
  | .slice _ parts, _ => Expr.evaluationOfAll parts .read
  | .call _ func arguments, _ => (func.evaluation .read).andThen (Argument.evaluation arguments)
  | .literal _ _ _ interpolations, _ => Expr.evaluationOfAll interpolations .read
  | .collection _ .set elements, _ => Expr.evaluationOfAll elements .read
  | .collection _ .tuple elements, use => Expr.evaluationOfAll elements use
  | .collection _ .list elements, use => Expr.evaluationOfAll elements use
  | .dict _ items, _ => DictItem.evaluation items
  | .comprehension _ _ element value generators, _ =>
    Generator.evaluation generators
      ((element.evaluation .read).andThen (Expr.evaluationOfOption value))
  | .lambda _ parameters _, _ => Parameter.defaultEvaluation parameters
  | .conditional _ test body orelse, _ =>
    (test.evaluation .read).andThen (either (body.evaluation .read) (orelse.evaluation .read))
  | .binary _ .logical left _ right, _ =>
    (left.evaluation .read).andThen (right.evaluation .read).perhaps
  | .binary _ .arithmetic left _ right, _ =>
    (left.evaluation .read).andThen (right.evaluation .read)
  | .unary _ _ operand, _ => operand.evaluation .read
  | .compare _ [] _, _ => binding []
  | .compare _ (first :: others) _, _ =>
    (first.evaluation .read).andThen (Expr.evaluationWhile others (binding []))
  | .named _ target value, _ => (value.evaluation .read).andThen (binding [target.id])
  | .starred _ value _, use => value.evaluation use
  | .await _ value, _ => value.evaluation .read
  | .yield _ value _, _ => Expr.evaluationOfOption value
  | .invalid _ children, _ => (Expr.evaluationOfAll children .read).perhaps

def Expr.evaluationOfAll : List Expr → TargetUse → Evaluation
  | [], _ => binding []
  | expr :: rest, use => (expr.evaluation use).andThen (Expr.evaluationOfAll rest use)

def Expr.evaluationOfOption : Option Expr → Evaluation
  | none => binding []
  | some expr => expr.evaluation .read

def Expr.evaluationWhile : List Expr → Evaluation → Evaluation
  | [], inner => inner
  | condition :: rest, inner =>
    (condition.evaluation .read).andThen (Expr.evaluationWhile rest inner).perhaps

def Argument.evaluation : List Argument → Evaluation
  | [] => binding []
  | ⟨_, value⟩ :: rest => (value.evaluation .read).andThen (Argument.evaluation rest)

def DictItem.evaluation : List DictItem → Evaluation
  | [] => binding []
  | ⟨key, value⟩ :: rest =>
    ((Expr.evaluationOfOption key).andThen (value.evaluation .read)).andThen
      (DictItem.evaluation rest)

def Generator.evaluation : List Generator → Evaluation → Evaluation
  | [], inner => inner
  | ⟨_, target, iter, conditions, _⟩ :: rest, inner =>
    (iter.evaluation .read).andThen (rounds ((target.evaluation .target).andThen
      (Expr.evaluationWhile conditions (Generator.evaluation rest inner))))

def Parameter.defaultEvaluation : List Parameter → Evaluation
  | [] => binding []
  | ⟨_, _, _, default, _, _, _⟩ :: rest =>
    (Expr.evaluationOfOption default).andThen (Parameter.defaultEvaluation rest)

end

mutual

/-- Alternatives bind the same names, so all captures are bound. -/
def Pattern.evaluation : Pattern → Evaluation
  | .capture identifier => binding [identifier.id]
  | .wildcard _ => binding []
  | .value expr => (expr.evaluation .read).perhaps
  | .group items => Pattern.evaluationOfAll items
  | .ofClass subject arguments =>
    (subject.evaluation .read).perhaps.andThen (Pattern.evaluationOfAll arguments)

def Pattern.evaluationOfAll : List Pattern → Evaluation
  | [] => binding []
  | pattern :: rest => pattern.evaluation.andThen (Pattern.evaluationOfAll rest)

end

def Expr.declaredEvaluation : Expr → Evaluation
  | .name _ => binding []
  | .member _ value _ => value.evaluation .read
  | .subscript mark value slices => (Expr.subscript mark value slices).evaluation .read
  | target => (target.evaluation .target).perhaps

def SimpleStmt.evaluation (mark : Mark) : SimpleStmt → Evaluation
  | .assign targets value => (value.evaluation .read).andThen (Expr.evaluationOfAll targets .target)
  | .annotatedAssign target _ (some value) =>
    (value.evaluation .read).andThen (target.evaluation .target)
  | .annotatedAssign target _ none => target.declaredEvaluation
  | .augmentedAssign target _ value => (value.evaluation .read).andThen (target.evaluation .target)
  | .expr value => value.evaluation .read
  | .ret value => Expr.evaluationOfOption value
  | .delete targets => Expr.evaluationOfAll targets .target
  | .raise exception cause =>
    (Expr.evaluationOfOption exception).andThen (Expr.evaluationOfOption cause)
  | .assert test _ => test.evaluation .read
  | .pass | .leaveLoop | .nextRound | .globalNames _ | .nonlocalNames _ => binding []
  | .plainImport names => binding ((Alias.boundNames names).map (·.id))
  | .fromImport imported =>
    (binding ((Alias.boundNames imported.names).map (·.id))).andThen
      (binding ((if imported.isWildcard then [mark] else []).map (·.id)))

def Expr.targetEvaluation : Option Expr → Evaluation
  | some target => target.evaluation .target
  | none => binding []

def WithItem.evaluation : List WithItem → Evaluation
  | [] => binding []
  | item :: rest =>
    ((item.context.evaluation .read).andThen (Expr.targetEvaluation item.target)).andThen
      (WithItem.evaluation rest)

def CaseHead.evaluation (head : CaseHead) : Evaluation :=
  head.pattern.evaluation.andThen (Expr.evaluationOfOption head.guard)

def Parameter.evaluation : List Parameter → Evaluation
  | [] => binding []
  | parameter :: rest =>
    ((Expr.evaluationOfOption parameter.default).andThen
      (Expr.evaluationOfOption parameter.hint).perhaps).andThen (Parameter.evaluation rest)

def FunctionHead.evaluation (head : FunctionHead) : Evaluation :=
  (((Expr.evaluationOfAll head.decorators .read).andThen
    (Parameter.evaluation head.parameters)).andThen
      (Expr.evaluationOfOption head.returns).perhaps).andThen (binding [head.name.id])

def ClassHead.evaluation (head : ClassHead) : Evaluation :=
  ((Expr.evaluationOfAll head.decorators .read).andThen
    (Argument.evaluation head.arguments)).andThen (binding [head.name.id])

namespace Element

def evaluation : Element → Evaluation
  | stmt (.simple mark form) => form.evaluation mark
  | stmt (.functionDef head _) => head.evaluation
  | stmt (.classDef head _) => head.evaluation.andThen anything
  | stmt (.branch _ test _ _) | stmt (.whileLoop _ test _ _) => test.evaluation .read
  | stmt (.forLoop _ target iter _ _ _) =>
    (iter.evaluation .read).perhaps.andThen (target.evaluation .target).perhaps
  | stmt (.tryBlock _ _ _ _ _) => anything
  | stmt (.withBlock _ items _ _) => WithItem.evaluation items
  | stmt (.matchOn _ subject _) => subject.evaluation .read
  | case clause => clause.head.evaluation

def Evaluates (element : Element) (nodes : List NodeId) : Prop :=
  element.evaluation.Runs nodes

def surely (hit : NodeId → Bool) (element : Element) : Bool :=
  element.evaluation.surely hit

end Element

end PyStatic
