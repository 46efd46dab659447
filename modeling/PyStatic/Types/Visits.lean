import PyStatic.Syntax.Stmt

/-!
Contract: which parts of a piece of syntax are typed, and in which order.

A visit names a node and the expression whose type is noted for it. This module owns the order
alone: what is noted depends on the state of the variables, and belongs to evaluation.
-/

namespace PyStatic

/-- No expression stands for what is bound without a value: such a node is anything. -/
structure TypeVisit where
  node : NodeId
  expr : Option Expr

inductive TargetUse where
  | read
  | target
  deriving DecidableEq, Repr

mutual

def Expr.typeVisits : Expr → TargetUse → List TypeVisit
  | .name name, .read => [⟨name.id, some (.name name)⟩]
  | .name name, .target => [⟨name.id, none⟩]
  | .member mark value attr, _ =>
    value.typeVisits .read ++ [⟨mark.id, some (.member mark value attr)⟩]
  | .subscript mark value slice, _ =>
    value.typeVisits .read ++ Expr.typeVisitsOfAll slice .read ++
      [⟨mark.id, some (.subscript mark value slice)⟩]
  | .slice mark parts, _ =>
    Expr.typeVisitsOfAll parts .read ++ [⟨mark.id, some (.slice mark parts)⟩]
  | .call mark func arguments, _ =>
    func.typeVisits .read ++ Argument.typeVisits arguments ++
      [⟨mark.id, some (.call mark func arguments)⟩]
  | .literal mark kind text interpolations, _ =>
    Expr.typeVisitsOfAll interpolations .read ++
      [⟨mark.id, some (.literal mark kind text interpolations)⟩]
  | .collection mark .set elements, _ =>
    Expr.typeVisitsOfAll elements .read ++ [⟨mark.id, some (.collection mark .set elements)⟩]
  | .collection mark .tuple elements, .read =>
    Expr.typeVisitsOfAll elements .read ++ [⟨mark.id, some (.collection mark .tuple elements)⟩]
  | .collection mark .list elements, .read =>
    Expr.typeVisitsOfAll elements .read ++ [⟨mark.id, some (.collection mark .list elements)⟩]
  | .collection mark .tuple elements, .target =>
    Expr.typeVisitsOfAll elements .target ++ [⟨mark.id, none⟩]
  | .collection mark .list elements, .target =>
    Expr.typeVisitsOfAll elements .target ++ [⟨mark.id, none⟩]
  | .dict mark items, _ =>
    DictItem.typeVisits items ++ [⟨mark.id, some (.dict mark items)⟩]
  | .comprehension mark kind element value generators, _ =>
    Generator.typeVisits generators ++ element.typeVisits .read ++
      Expr.typeVisitsOfOption value ++
      [⟨mark.id, some (.comprehension mark kind element value generators)⟩]
  | .lambda mark parameters body, _ =>
    Parameter.defaultTypeVisits parameters ++ body.typeVisits .read ++
      [⟨mark.id, some (.lambda mark parameters body)⟩]
  | .conditional mark test body orelse, _ =>
    test.typeVisits .read ++ body.typeVisits .read ++ orelse.typeVisits .read ++
      [⟨mark.id, some (.conditional mark test body orelse)⟩]
  | .binary mark kind left op right, _ =>
    left.typeVisits .read ++ right.typeVisits .read ++
      [⟨mark.id, some (.binary mark kind left op right)⟩]
  | .unary mark op operand, _ =>
    operand.typeVisits .read ++ [⟨mark.id, some (.unary mark op operand)⟩]
  | .compare mark operands ops, _ =>
    Expr.typeVisitsOfAll operands .read ++ [⟨mark.id, some (.compare mark operands ops)⟩]
  | .named mark target value, _ =>
    value.typeVisits .read ++
      [⟨target.id, some value⟩, ⟨mark.id, some (.named mark target value)⟩]
  | .starred mark value double, .read =>
    value.typeVisits .read ++ [⟨mark.id, some (.starred mark value double)⟩]
  | .starred mark value _, .target =>
    value.typeVisits .target ++ [⟨mark.id, none⟩]
  | .await mark value, _ =>
    value.typeVisits .read ++ [⟨mark.id, some (.await mark value)⟩]
  | .yield mark value isFrom, _ =>
    Expr.typeVisitsOfOption value ++ [⟨mark.id, some (.yield mark value isFrom)⟩]
  | .invalid mark children, _ =>
    Expr.typeVisitsOfAll children .read ++ [⟨mark.id, some (.invalid mark children)⟩]

def Expr.typeVisitsOfAll : List Expr → TargetUse → List TypeVisit
  | [], _ => []
  | expr :: rest, use => expr.typeVisits use ++ Expr.typeVisitsOfAll rest use

def Expr.typeVisitsOfOption : Option Expr → List TypeVisit
  | none => []
  | some expr => expr.typeVisits .read

def Argument.typeVisits : List Argument → List TypeVisit
  | [] => []
  | ⟨_, value⟩ :: rest => value.typeVisits .read ++ Argument.typeVisits rest

def DictItem.typeVisits : List DictItem → List TypeVisit
  | [] => []
  | ⟨key, value⟩ :: rest =>
    Expr.typeVisitsOfOption key ++ value.typeVisits .read ++ DictItem.typeVisits rest

def Generator.typeVisits : List Generator → List TypeVisit
  | [] => []
  | ⟨_, target, iter, conditions, _⟩ :: rest =>
    iter.typeVisits .read ++ target.typeVisits .target ++
      Expr.typeVisitsOfAll conditions .read ++ Generator.typeVisits rest

def Parameter.defaultTypeVisits : List Parameter → List TypeVisit
  | [] => []
  | ⟨_, _, _, default, _, _, _⟩ :: rest =>
    Expr.typeVisitsOfOption default ++ Parameter.defaultTypeVisits rest

end

mutual

def Pattern.typeVisits : Pattern → List TypeVisit
  | .capture name => [⟨name.id, none⟩]
  | .wildcard _ => []
  | .value expr => expr.typeVisits .read
  | .group items => Pattern.typeVisitsOfAll items
  | .ofClass subject arguments =>
    subject.typeVisits .read ++ Pattern.typeVisitsOfAll arguments

def Pattern.typeVisitsOfAll : List Pattern → List TypeVisit
  | [] => []
  | pattern :: rest => pattern.typeVisits ++ Pattern.typeVisitsOfAll rest

end

def SimpleStmt.typeVisits : SimpleStmt → List TypeVisit
  | .assign _ value => value.typeVisits .read
  | .annotatedAssign _ hint (some value) => hint.typeVisits .read ++ value.typeVisits .read
  | .annotatedAssign target hint none => hint.typeVisits .read ++ target.typeVisits .target
  | .augmentedAssign target _ value => target.typeVisits .read ++ value.typeVisits .read
  | .expr value => value.typeVisits .read
  | .ret value => Expr.typeVisitsOfOption value
  | .delete targets => Expr.typeVisitsOfAll targets .target
  | .raise exception cause =>
    Expr.typeVisitsOfOption exception ++ Expr.typeVisitsOfOption cause
  | .assert test message => test.typeVisits .read ++ Expr.typeVisitsOfOption message
  | .leaveLoop | .nextRound | .pass | .globalNames _ | .nonlocalNames _ | .plainImport _
  | .fromImport _ => []

def SimpleStmt.assignment? : SimpleStmt → Option (List Expr × Expr)
  | .assign targets value => some (targets, value)
  | .annotatedAssign target _ (some value) => some ([target], value)
  | _ => none

def FunctionHead.typeVisits (head : FunctionHead) : List TypeVisit :=
  Expr.typeVisitsOfAll head.decorators .read ++
    head.parameters.flatMap (fun parameter =>
      Expr.typeVisitsOfOption parameter.default ++ Expr.typeVisitsOfOption parameter.hint) ++
    Expr.typeVisitsOfOption head.returns

def ClassHead.typeVisits (head : ClassHead) : List TypeVisit :=
  Expr.typeVisitsOfAll head.decorators .read ++ Argument.typeVisits head.arguments

def WithItem.typeVisits (item : WithItem) : List TypeVisit :=
  item.context.typeVisits .read ++
    (item.target.map fun target => target.typeVisits .target).getD []

def CaseHead.typeVisits (head : CaseHead) : List TypeVisit :=
  head.pattern.typeVisits ++ Expr.typeVisitsOfOption head.guard

end PyStatic
