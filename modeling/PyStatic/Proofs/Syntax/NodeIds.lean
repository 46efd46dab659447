import PyStatic.Syntax.Stmt

/-!
Contract: the identities of all nodes of a module.

Every mark of a tree is listed once: those of statements, clauses, expressions, parameters and
aliases, and those of names, be they expressions or not. The order is the one in which they are
usually read.
-/

namespace PyStatic

def ParameterTarget.ids (target : ParameterTarget) : List NodeId :=
  target.names.map (·.id)

mutual

def Expr.ids : Expr → List NodeId
  | .name identifier => [identifier.id]
  | .member mark value attr => [mark.id] ++ value.ids ++ [attr.id]
  | .subscript mark value slice => [mark.id] ++ value.ids ++ Expr.idsOfAll slice
  | .slice mark parts => [mark.id] ++ Expr.idsOfAll parts
  | .call mark func arguments => [mark.id] ++ func.ids ++ Argument.idsOfAll arguments
  | .literal mark _ _ interpolations => [mark.id] ++ Expr.idsOfAll interpolations
  | .collection mark _ elements => [mark.id] ++ Expr.idsOfAll elements
  | .dict mark items => [mark.id] ++ DictItem.idsOfAll items
  | .comprehension mark _ element value generators =>
    [mark.id] ++ (element.ids ++ Expr.idsOfOption value) ++ Generator.idsOfAll generators
  | .lambda mark parameters body => [mark.id] ++ Parameter.idsOfAll parameters ++ body.ids
  | .conditional mark test body orelse => [mark.id] ++ test.ids ++ body.ids ++ orelse.ids
  | .binary mark _ left _ right => [mark.id] ++ left.ids ++ right.ids
  | .unary mark _ operand => [mark.id] ++ operand.ids
  | .compare mark operands _ => [mark.id] ++ Expr.idsOfAll operands
  | .named mark target value => [mark.id] ++ [target.id] ++ value.ids
  | .starred mark value _ => [mark.id] ++ value.ids
  | .await mark value => [mark.id] ++ value.ids
  | .yield mark value _ => [mark.id] ++ Expr.idsOfOption value
  | .invalid mark children => [mark.id] ++ Expr.idsOfAll children

def Expr.idsOfAll : List Expr → List NodeId
  | [] => []
  | expr :: rest => expr.ids ++ Expr.idsOfAll rest

def Expr.idsOfOption : Option Expr → List NodeId
  | none => []
  | some expr => expr.ids

def Argument.idsOfAll : List Argument → List NodeId
  | [] => []
  | ⟨keyword, value⟩ :: rest =>
    (keyword.toList.map (·.id) ++ value.ids) ++ Argument.idsOfAll rest

def DictItem.idsOfAll : List DictItem → List NodeId
  | [] => []
  | ⟨key, value⟩ :: rest => (Expr.idsOfOption key ++ value.ids) ++ DictItem.idsOfAll rest

def Generator.idsOfAll : List Generator → List NodeId
  | [] => []
  | ⟨_, target, iter, conditions, _⟩ :: rest =>
    (target.ids ++ iter.ids ++ Expr.idsOfAll conditions) ++ Generator.idsOfAll rest

def Parameter.idsOfAll : List Parameter → List NodeId
  | [] => []
  | ⟨mark, target, hint, default, _, _, _⟩ :: rest =>
    ([mark.id] ++ target.ids ++ Expr.idsOfOption hint ++ Expr.idsOfOption default) ++
      Parameter.idsOfAll rest

end

mutual

def Pattern.ids : Pattern → List NodeId
  | .capture identifier => [identifier.id]
  | .wildcard _ => []
  | .value expr => expr.ids
  | .group items => Pattern.idsOfAll items
  | .ofClass subject arguments => subject.ids ++ Pattern.idsOfAll arguments

def Pattern.idsOfAll : List Pattern → List NodeId
  | [] => []
  | pattern :: rest => pattern.ids ++ Pattern.idsOfAll rest

end

def DottedName.ids (name : DottedName) : List NodeId :=
  name.parts.map (·.id)

def Alias.ids (imported : Alias) : List NodeId :=
  [imported.mark.id] ++ imported.name.ids ++ imported.asName.toList.map (·.id)

def FromImport.ids (imported : FromImport) : List NodeId :=
  imported.target.toList.flatMap (·.ids) ++ imported.names.flatMap (·.ids)

def SimpleStmt.ids : SimpleStmt → List NodeId
  | .assign targets value => Expr.idsOfAll targets ++ value.ids
  | .annotatedAssign target hint value => target.ids ++ hint.ids ++ Expr.idsOfOption value
  | .augmentedAssign target _ value => target.ids ++ value.ids
  | .expr value => value.ids
  | .ret value => Expr.idsOfOption value
  | .delete targets => Expr.idsOfAll targets
  | .raise exception cause => Expr.idsOfOption exception ++ Expr.idsOfOption cause
  | .assert test message => test.ids ++ Expr.idsOfOption message
  | .pass | .leaveLoop | .nextRound => []
  | .globalNames names | .nonlocalNames names => names.map (·.id)
  | .plainImport names => names.flatMap (·.ids)
  | .fromImport imported => imported.ids

def FunctionHead.ids (head : FunctionHead) : List NodeId :=
  Expr.idsOfAll head.decorators ++ [head.mark.id] ++ [head.name.id] ++
    Parameter.idsOfAll head.parameters ++ Expr.idsOfOption head.returns

def ClassHead.ids (head : ClassHead) : List NodeId :=
  Expr.idsOfAll head.decorators ++ [head.mark.id] ++ [head.name.id] ++
    Argument.idsOfAll head.arguments

def WithItem.ids (item : WithItem) : List NodeId :=
  item.context.ids ++ Expr.idsOfOption item.target

def HandlerHead.ids (head : HandlerHead) : List NodeId :=
  [head.mark.id] ++ (Expr.idsOfOption head.kind ++ head.name.toList.map (·.id))

def CaseHead.ids (head : CaseHead) : List NodeId :=
  [head.mark.id] ++ head.pattern.ids ++ Expr.idsOfOption head.guard

mutual

def Stmt.ids : Stmt → List NodeId
  | .simple mark form => [mark.id] ++ form.ids
  | .functionDef head body => head.ids ++ Stmt.idsOfAll body
  | .classDef head body => head.ids ++ Stmt.idsOfAll body
  | .branch mark test body orelse =>
    [mark.id] ++ test.ids ++ Stmt.idsOfAll body ++ Stmt.idsOfAll orelse
  | .forLoop mark target iter _ body orelse =>
    [mark.id] ++ target.ids ++ iter.ids ++ Stmt.idsOfAll body ++ Stmt.idsOfAll orelse
  | .whileLoop mark test body orelse =>
    [mark.id] ++ test.ids ++ Stmt.idsOfAll body ++ Stmt.idsOfAll orelse
  | .tryBlock mark body handlers orelse finalbody =>
    [mark.id] ++ Stmt.idsOfAll body ++
      (Handler.idsOfAll handlers ++ Stmt.idsOfAll orelse ++ Stmt.idsOfAll finalbody)
  | .withBlock mark items _ body =>
    [mark.id] ++ items.flatMap (·.ids) ++ Stmt.idsOfAll body
  | .matchOn mark subject cases => [mark.id] ++ subject.ids ++ MatchCase.idsOfAll cases

def Stmt.idsOfAll : List Stmt → List NodeId
  | [] => []
  | stmt :: rest => stmt.ids ++ Stmt.idsOfAll rest

def Handler.idsOfAll : List Handler → List NodeId
  | [] => []
  | ⟨head, body⟩ :: rest => (head.ids ++ Stmt.idsOfAll body) ++ Handler.idsOfAll rest

def MatchCase.idsOfAll : List MatchCase → List NodeId
  | [] => []
  | ⟨head, body⟩ :: rest => (head.ids ++ Stmt.idsOfAll body) ++ MatchCase.idsOfAll rest

end

def Module.ids (module' : Module) : List NodeId :=
  [module'.mark.id] ++ Stmt.idsOfAll module'.body

end PyStatic
