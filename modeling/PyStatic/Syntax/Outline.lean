import PyStatic.Syntax.Stmt

/-!
Contract: the order in which the nodes of a module are visited.

Statements, expressions, patterns and parameters are visited; each before the nodes inside it.
Names that are not expressions (of definitions, attributes, imports and captures) are not.
-/

namespace PyStatic

inductive Outline (α : Type) where
  | node (item : α) (children : List (Outline α))

namespace Outline

def item {α : Type} : Outline α → α
  | node item _ => item

mutual

def preorder {α : Type} : Outline α → List α
  | node item children => item :: preorderOfAll children

def preorderOfAll {α : Type} : List (Outline α) → List α
  | [] => []
  | outline :: rest => preorder outline ++ preorderOfAll rest

end

structure Walk (α : Type) where
  met : List α
  stopped : Bool

mutual

/-- Ends at the first item that `stops`; below a `skipped` one nothing is met. -/
def walk {α : Type} (skips stops : α → Bool) : Outline α → Walk α
  | node item children =>
    if stops item then ⟨[item], true⟩
    else if skips item then ⟨[item], false⟩
    else
      let below := walkAll skips stops children
      ⟨item :: below.met, below.stopped⟩

def walkAll {α : Type} (skips stops : α → Bool) : List (Outline α) → Walk α
  | [] => ⟨[], false⟩
  | outline :: rest =>
    let first := walk skips stops outline
    if first.stopped then first
    else
      let others := walkAll skips stops rest
      ⟨first.met ++ others.met, others.stopped⟩

end

end Outline

inductive Visited where
  | stmt (stmt : Stmt)
  | expr (expr : Expr)
  | pattern (pattern : Pattern)
  | parameter (parameter : Parameter)

namespace Visited

def label : Visited → String
  | stmt form => "stmt." ++ form.formName
  | expr form => "expr." ++ form.formName
  | pattern form => "pattern." ++ form.formName
  | parameter _ => "parameter.Parameter"

def start? : Visited → Option Nat
  | stmt form => some form.range.start
  | expr form => some form.range.start
  | pattern _ => none
  | parameter form => some form.mark.range.start

def stmt? : Visited → Option Stmt
  | stmt form => some form
  | _ => none

def expr? : Visited → Option Expr
  | expr form => some form
  | _ => none

def isPattern : Visited → Bool
  | pattern _ => true
  | _ => false

end Visited

mutual

def Expr.outline : Expr → Outline Visited
  | .name identifier => .node (.expr (.name identifier)) []
  | .member mark value attr => .node (.expr (.member mark value attr)) [value.outline]
  | .subscript mark value slice =>
    .node (.expr (.subscript mark value slice)) (value.outline :: Expr.outlines slice)
  | .slice mark parts => .node (.expr (.slice mark parts)) (Expr.outlines parts)
  | .call mark func arguments =>
    .node (.expr (.call mark func arguments)) (func.outline :: Argument.outlines arguments)
  | .literal mark kind text interpolations =>
    .node (.expr (.literal mark kind text interpolations)) (Expr.outlines interpolations)
  | .collection mark shape elements =>
    .node (.expr (.collection mark shape elements)) (Expr.outlines elements)
  | .dict mark items => .node (.expr (.dict mark items)) (DictItem.outlines items)
  | .comprehension mark kind element value generators =>
    .node (.expr (.comprehension mark kind element value generators))
      (Generator.outlines generators ++ element.outline :: Expr.outlineOf value)
  | .lambda mark parameters body =>
    .node (.expr (.lambda mark parameters body))
      (Parameter.outlines parameters ++ [body.outline])
  | .conditional mark test body orelse =>
    .node (.expr (.conditional mark test body orelse))
      [body.outline, test.outline, orelse.outline]
  | .binary mark kind left op right =>
    .node (.expr (.binary mark kind left op right)) [left.outline, right.outline]
  | .unary mark op operand => .node (.expr (.unary mark op operand)) [operand.outline]
  | .compare mark operands ops =>
    .node (.expr (.compare mark operands ops)) (Expr.outlines operands)
  | .named mark target value => .node (.expr (.named mark target value)) [value.outline]
  | .starred mark value double => .node (.expr (.starred mark value double)) [value.outline]
  | .await mark value => .node (.expr (.await mark value)) [value.outline]
  | .yield mark value isFrom =>
    .node (.expr (.yield mark value isFrom)) (Expr.outlineOf value)
  | .invalid mark children =>
    .node (.expr (.invalid mark children)) (Expr.outlines children)

def Expr.outlines : List Expr → List (Outline Visited)
  | [] => []
  | expr :: rest => expr.outline :: Expr.outlines rest

def Expr.outlineOf : Option Expr → List (Outline Visited)
  | none => []
  | some expr => [expr.outline]

def Argument.outlines : List Argument → List (Outline Visited)
  | [] => []
  | ⟨_, value⟩ :: rest => value.outline :: Argument.outlines rest

def DictItem.outlines : List DictItem → List (Outline Visited)
  | [] => []
  | ⟨key, value⟩ :: rest =>
    Expr.outlineOf key ++ value.outline :: DictItem.outlines rest

def Generator.outlines : List Generator → List (Outline Visited)
  | [] => []
  | ⟨_, target, iter, conditions, _⟩ :: rest =>
    iter.outline :: target.outline :: Expr.outlines conditions ++ Generator.outlines rest

def Parameter.outlines : List Parameter → List (Outline Visited)
  | [] => []
  | ⟨mark, target, hint, default, kind, positionalOnly, keywordOnly⟩ :: rest =>
    .node (.parameter ⟨mark, target, hint, default, kind, positionalOnly, keywordOnly⟩)
      (Expr.outlineOf hint ++ Expr.outlineOf default) :: Parameter.outlines rest

end

mutual

def Pattern.outline : Pattern → Outline Visited
  | .capture identifier => .node (.pattern (.capture identifier)) []
  | .wildcard range => .node (.pattern (.wildcard range)) []
  | .value expr => .node (.pattern (.value expr)) [expr.outline]
  | .group items => .node (.pattern (.group items)) (Pattern.outlines items)
  | .ofClass subject arguments =>
    .node (.pattern (.ofClass subject arguments))
      (subject.outline :: Pattern.outlines arguments)

def Pattern.outlines : List Pattern → List (Outline Visited)
  | [] => []
  | pattern :: rest => pattern.outline :: Pattern.outlines rest

end

def SimpleStmt.outlines : SimpleStmt → List (Outline Visited)
  | .assign targets value => Expr.outlines targets ++ [value.outline]
  | .annotatedAssign target hint value =>
    target.outline :: hint.outline :: Expr.outlineOf value
  | .augmentedAssign target _ value => [target.outline, value.outline]
  | .expr value => [value.outline]
  | .ret value => Expr.outlineOf value
  | .delete targets => Expr.outlines targets
  | .raise exception cause => Expr.outlineOf exception ++ Expr.outlineOf cause
  | .assert test message => test.outline :: Expr.outlineOf message
  | .pass | .leaveLoop | .nextRound | .globalNames _ | .nonlocalNames _ | .plainImport _
  | .fromImport _ => []

def FunctionHead.outlines (head : FunctionHead) : List (Outline Visited) :=
  Expr.outlines head.decorators ++ Parameter.outlines head.parameters ++
    Expr.outlineOf head.returns

def ClassHead.outlines (head : ClassHead) : List (Outline Visited) :=
  Expr.outlines head.decorators ++ Argument.outlines head.arguments

def WithItem.outlines (items : List WithItem) : List (Outline Visited) :=
  items.flatMap fun item => item.context.outline :: Expr.outlineOf item.target

mutual

def Stmt.outline : Stmt → Outline Visited
  | .simple mark form => .node (.stmt (.simple mark form)) form.outlines
  | .functionDef head body =>
    .node (.stmt (.functionDef head body)) (head.outlines ++ Stmt.outlines body)
  | .classDef head body =>
    .node (.stmt (.classDef head body)) (head.outlines ++ Stmt.outlines body)
  | .branch mark test body orelse =>
    .node (.stmt (.branch mark test body orelse))
      (test.outline :: Stmt.outlines body ++ Stmt.outlines orelse)
  | .forLoop mark target iter isAsync body orelse =>
    .node (.stmt (.forLoop mark target iter isAsync body orelse))
      (target.outline :: iter.outline :: Stmt.outlines body ++ Stmt.outlines orelse)
  | .whileLoop mark test body orelse =>
    .node (.stmt (.whileLoop mark test body orelse))
      (test.outline :: Stmt.outlines body ++ Stmt.outlines orelse)
  | .tryBlock mark body handlers orelse finalbody =>
    .node (.stmt (.tryBlock mark body handlers orelse finalbody))
      (Stmt.outlines body ++ Handler.outlines handlers ++ Stmt.outlines orelse ++
        Stmt.outlines finalbody)
  | .withBlock mark items isAsync body =>
    .node (.stmt (.withBlock mark items isAsync body))
      (WithItem.outlines items ++ Stmt.outlines body)
  | .matchOn mark subject cases =>
    .node (.stmt (.matchOn mark subject cases)) (subject.outline :: MatchCase.outlines cases)

def Stmt.outlines : List Stmt → List (Outline Visited)
  | [] => []
  | stmt :: rest => stmt.outline :: Stmt.outlines rest

def Handler.outlines : List Handler → List (Outline Visited)
  | [] => []
  | ⟨head, body⟩ :: rest =>
    Expr.outlineOf head.kind ++ Stmt.outlines body ++ Handler.outlines rest

def MatchCase.outlines : List MatchCase → List (Outline Visited)
  | [] => []
  | ⟨head, body⟩ :: rest =>
    head.pattern.outline :: Expr.outlineOf head.guard ++ Stmt.outlines body ++
      MatchCase.outlines rest

end

def Stmt.visitAll (body : List Stmt) : List Visited :=
  Outline.preorderOfAll (Stmt.outlines body)

namespace Module

def outlines (module' : Module) : List (Outline Visited) :=
  Stmt.outlines module'.body

def visited (module' : Module) : List Visited :=
  Stmt.visitAll module'.body

def allStmts (module' : Module) : List Stmt :=
  module'.visited.filterMap (·.stmt?)

def functions (module' : Module) : List FunctionDef :=
  module'.allStmts.filterMap (·.function?)

def readNames (module' : Module) : List Identifier :=
  module'.visited.filterMap fun node => node.expr?.bind (·.name?)

end Module

def Stmt.ownStmts (body : List Stmt) : List Stmt :=
  let entersNot : Visited → Bool
    | .stmt (.functionDef _ _) | .stmt (.classDef _ _) | .expr _ => true
    | _ => false
  (Outline.walkAll entersNot (fun _ => false) (Stmt.outlines body)).met.filterMap (·.stmt?)

end PyStatic
