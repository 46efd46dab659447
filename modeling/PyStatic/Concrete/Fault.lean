import PyStatic.Concrete.Tree
import PyStatic.Text.Source

/-!
Contract: the places where a source text departs from the grammar.

A fault is a node the grammar could not fit in, or one it had to suppose. Only the outermost count:
what lies inside a fault is part of it.
-/

namespace PyStatic

inductive FaultCause where
  | missing (kind : String)
  | invalid
  deriving DecidableEq, Repr

structure Fault where
  cause : FaultCause
  position : Position
  range : TextRange
  deriving DecidableEq, Repr

def FaultCause.message : FaultCause → String
  | missing kind => "missing `" ++ kind ++ "`"
  | invalid => "invalid syntax"

def Fault.message (fault : Fault) : String :=
  fault.cause.message ++ " at " ++ toString fault.position.line ++ ":" ++
    toString fault.position.column

namespace TreeNode

def isFault (info : TreeNode) : Bool :=
  info.flags.isError || info.flags.isMissing

def faultCause (info : TreeNode) : FaultCause :=
  if info.flags.isMissing then .missing info.kind else .invalid

end TreeNode

namespace Tree

theorem sizeOf_append (first second : List Tree) :
    sizeOf (first ++ second) + 1 = sizeOf first + sizeOf second := by
  induction first with
  | nil => simp; omega
  | cons tree rest ih => simp; omega

/-- The outermost faulty nodes; only nodes that report a fault below them are searched. -/
def faultNodes : List Tree → List TreeNode
  | [] => []
  | node info children :: rest =>
    if info.isFault then info :: faultNodes rest
    else if info.flags.hasError then faultNodes (children ++ rest)
    else faultNodes rest
termination_by stack => sizeOf stack
decreasing_by
  all_goals
    have := sizeOf_append children rest
    simp only [List.cons.sizeOf_spec, Tree.node.sizeOf_spec]
    omega

def faults (source : Source) (root : Tree) : List Fault :=
  if root.info.flags.hasError then
    (faultNodes [root]).map fun info =>
      ⟨info.faultCause, source.startPosition info.range.start, info.range⟩
  else
    []

end Tree

end PyStatic
