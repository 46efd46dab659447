import PyStatic.Proofs.Syntax.NodeIds
import PyStatic.Types.Eval

/-!
Contract: the places at which syntax binds or deletes names.

Names, tuples, lists and starred expressions bind when they are targets, and so do attributes; every
assignment expression binds. Bindings are listed in the order of the nodes, whether or not
evaluation comes by them.
-/

namespace PyStatic

open List

/-- The marks of the nodes that bind. -/
structure Bindings where
  marks : List Mark

namespace Bindings

def empty : Bindings :=
  ⟨[]⟩

def names (bound : List Identifier) : Bindings :=
  ⟨bound.map (·.mark)⟩

instance : Append Bindings where
  append first second := ⟨first.marks ++ second.marks⟩

def count (bindings : Bindings) (node : NodeId) : Nat :=
  (bindings.marks.map (·.id)).count node

variable (first second : Bindings) (node : NodeId)

@[simp] theorem marks_append : (first ++ second).marks = first.marks ++ second.marks :=
  rfl

@[simp] theorem append_empty : first ++ empty = first :=
  congrArg mk (append_nil first.marks)

@[simp] theorem empty_append : empty ++ first = first :=
  rfl

theorem names_append (bound others : List Identifier) :
    names (bound ++ others) = names bound ++ names others :=
  congrArg mk (map_append ..)

@[simp] theorem count_names (bound : List Identifier) :
    (names bound).count node = (bound.map (·.id)).count node := by
  rw [count, names, map_map]
  rfl

@[simp] theorem count_append :
    (first ++ second).count node = first.count node + second.count node := by
  rw [count, marks_append, map_append, List.count_append]
  rfl

theorem count_pos_iff : 0 < first.count node ↔ ∃ mark ∈ first.marks, mark.id = node := by
  rw [count, List.count_pos_iff, mem_map]

end Bindings

mutual

/-- A target may be nested; what it holds besides names is only read. -/
def Expr.bindings : Expr → TargetUse → Bindings
  | .name _, .read => .empty
  | .name identifier, .target => .names [identifier]
  | .member _ value _, .read => value.bindings .read
  | .member _ value attr, .target => value.bindings .read ++ .names [attr]
  | .subscript _ value slices, _ => value.bindings .read ++ Expr.bindingsOfAll slices .read
  | .slice _ parts, _ => Expr.bindingsOfAll parts .read
  | .call _ func arguments, _ => func.bindings .read ++ Argument.bindings arguments
  | .literal _ _ _ interpolations, _ => Expr.bindingsOfAll interpolations .read
  | .collection _ .set elements, _ => Expr.bindingsOfAll elements .read
  | .collection _ .tuple elements, use => Expr.bindingsOfAll elements use
  | .collection _ .list elements, use => Expr.bindingsOfAll elements use
  | .dict _ items, _ => DictItem.bindings items
  | .comprehension _ _ element value generators, _ =>
    (element.bindings .read ++ Expr.bindingsOfOption value) ++ Generator.bindings generators
  | .lambda _ parameters body, _ => Parameter.bindings parameters ++ body.bindings .read
  | .conditional _ test body orelse, _ =>
    test.bindings .read ++ body.bindings .read ++ orelse.bindings .read
  | .binary _ _ left _ right, _ => left.bindings .read ++ right.bindings .read
  | .unary _ _ operand, _ => operand.bindings .read
  | .compare _ operands _, _ => Expr.bindingsOfAll operands .read
  | .named _ target value, _ => .names [target] ++ value.bindings .read
  | .starred _ value _, use => value.bindings use
  | .await _ value, _ => value.bindings .read
  | .yield _ value _, _ => Expr.bindingsOfOption value
  | .invalid _ children, _ => Expr.bindingsOfAll children .read

def Expr.bindingsOfAll : List Expr → TargetUse → Bindings
  | [], _ => .empty
  | expr :: rest, use => expr.bindings use ++ Expr.bindingsOfAll rest use

def Expr.bindingsOfOption : Option Expr → Bindings
  | none => .empty
  | some expr => expr.bindings .read

def Argument.bindings : List Argument → Bindings
  | [] => .empty
  | ⟨_, value⟩ :: rest => value.bindings .read ++ Argument.bindings rest

def DictItem.bindings : List DictItem → Bindings
  | [] => .empty
  | ⟨key, value⟩ :: rest =>
    (Expr.bindingsOfOption key ++ value.bindings .read) ++ DictItem.bindings rest

def Generator.bindings : List Generator → Bindings
  | [] => .empty
  | ⟨_, target, iter, conditions, _⟩ :: rest =>
    (target.bindings .target ++ iter.bindings .read ++ Expr.bindingsOfAll conditions .read) ++
      Generator.bindings rest

def Parameter.bindings : List Parameter → Bindings
  | [] => .empty
  | ⟨_, target, hint, default, _, _, _⟩ :: rest =>
    (.names target.names ++ Expr.bindingsOfOption hint ++ Expr.bindingsOfOption default) ++
      Parameter.bindings rest

end

mutual

def Pattern.bindings : Pattern → Bindings
  | .capture identifier => .names [identifier]
  | .wildcard _ => .empty
  | .value expr => expr.bindings .read
  | .group items => Pattern.bindingsOfAll items
  | .ofClass subject arguments => subject.bindings .read ++ Pattern.bindingsOfAll arguments

def Pattern.bindingsOfAll : List Pattern → Bindings
  | [] => .empty
  | pattern :: rest => pattern.bindings ++ Pattern.bindingsOfAll rest

end

def Alias.boundNames (names : List Alias) : List Identifier :=
  names.flatMap (·.boundName?.toList)

def SimpleStmt.bindings (mark : Mark) : SimpleStmt → Bindings
  | .assign targets value => Expr.bindingsOfAll targets .target ++ value.bindings .read
  | .annotatedAssign target hint value =>
    target.bindings .target ++ hint.bindings .read ++ Expr.bindingsOfOption value
  | .augmentedAssign target _ value => target.bindings .target ++ value.bindings .read
  | .expr value => value.bindings .read
  | .ret value => Expr.bindingsOfOption value
  | .delete targets => Expr.bindingsOfAll targets .target
  | .raise exception cause => Expr.bindingsOfOption exception ++ Expr.bindingsOfOption cause
  | .assert test message => test.bindings .read ++ Expr.bindingsOfOption message
  | .pass | .leaveLoop | .nextRound | .globalNames _ | .nonlocalNames _ => .empty
  | .plainImport names => .names (Alias.boundNames names)
  | .fromImport imported =>
    ⟨if imported.isWildcard then [mark] else []⟩ ++ .names (Alias.boundNames imported.names)

def Expr.targetBindings : Option Expr → Bindings
  | some target => target.bindings .target
  | none => .empty

def WithItem.bindings : List WithItem → Bindings
  | [] => .empty
  | item :: rest =>
    (item.context.bindings .read ++ Expr.targetBindings item.target) ++ WithItem.bindings rest

def CaseHead.bindings (head : CaseHead) : Bindings :=
  head.pattern.bindings ++ Expr.bindingsOfOption head.guard

def FunctionHead.bindings (head : FunctionHead) : Bindings :=
  Expr.bindingsOfAll head.decorators .read ++ .names [head.name] ++
    Parameter.bindings head.parameters ++ Expr.bindingsOfOption head.returns

def ClassHead.bindings (head : ClassHead) : Bindings :=
  Expr.bindingsOfAll head.decorators .read ++ .names [head.name] ++ Argument.bindings head.arguments

def HandlerHead.bindings (head : HandlerHead) : Bindings :=
  Expr.bindingsOfOption head.kind ++ .names head.name.toList

mutual

def Stmt.bindings : Stmt → Bindings
  | .simple mark form => form.bindings mark
  | .functionDef head body => head.bindings ++ Stmt.bindingsOfAll body
  | .classDef head body => head.bindings ++ Stmt.bindingsOfAll body
  | .branch _ test body orelse | .whileLoop _ test body orelse =>
    test.bindings .read ++ Stmt.bindingsOfAll body ++ Stmt.bindingsOfAll orelse
  | .forLoop _ target iter _ body orelse =>
    (target.bindings .target ++ iter.bindings .read) ++ Stmt.bindingsOfAll body ++
      Stmt.bindingsOfAll orelse
  | .tryBlock _ body handlers orelse finalbody =>
    Stmt.bindingsOfAll body ++
      (Handler.bindings handlers ++ Stmt.bindingsOfAll orelse ++ Stmt.bindingsOfAll finalbody)
  | .withBlock _ items _ body => WithItem.bindings items ++ Stmt.bindingsOfAll body
  | .matchOn _ subject cases => subject.bindings .read ++ MatchCase.bindings cases

def Stmt.bindingsOfAll : List Stmt → Bindings
  | [] => .empty
  | stmt :: rest => stmt.bindings ++ Stmt.bindingsOfAll rest

def Handler.bindings : List Handler → Bindings
  | [] => .empty
  | ⟨head, body⟩ :: rest => (head.bindings ++ Stmt.bindingsOfAll body) ++ Handler.bindings rest

def MatchCase.bindings : List MatchCase → Bindings
  | [] => .empty
  | ⟨head, body⟩ :: rest => (head.bindings ++ Stmt.bindingsOfAll body) ++ MatchCase.bindings rest

end

end PyStatic
