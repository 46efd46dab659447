import PyStatic.Syntax.Outline

/-!
Contract: a visit of the nodes of a module that may be broken off.

A visitor meets a node before those inside it, and then breaks off, passes over what is inside, or
goes on there. Each form of node says which nodes stand directly inside it and in which order they
come; once a visit is broken off, none of those that remain is met.
-/

namespace PyStatic

open Outline (Walk)

namespace Outline.Walk

def done {α : Type} : Walk α :=
  ⟨[], false⟩

/-- What comes next is left out if the walk is broken off before it. -/
@[macro_inline] def andThen {α : Type} (first next : Walk α) : Walk α :=
  if first.stopped then first else ⟨first.met ++ next.met, next.stopped⟩

end Outline.Walk

structure Visitor where
  skips : Visited → Bool
  stops : Visited → Bool

namespace Visitor

@[macro_inline] def meet (visitor : Visitor) (node : Visited) (inside : Walk Visited) :
    Walk Visited :=
  if visitor.stops node then ⟨[node], true⟩
  else if visitor.skips node then ⟨[node], false⟩
  else ⟨node :: inside.met, inside.stopped⟩

mutual

def expr (visitor : Visitor) (form : Expr) : Walk Visited :=
  visitor.meet (.expr form) <|
    match form with
    | .name _ => .done
    | .member _ value _ => visitor.expr value
    | .subscript _ value slice => (visitor.expr value).andThen (visitor.exprs slice)
    | .slice _ parts => visitor.exprs parts
    | .call _ func arguments => (visitor.expr func).andThen (visitor.arguments arguments)
    | .literal _ _ _ interpolations => visitor.exprs interpolations
    | .collection _ _ elements => visitor.exprs elements
    | .dict _ items => visitor.dictItems items
    | .comprehension _ _ element value generators =>
      (visitor.generators generators).andThen <|
        (visitor.expr element).andThen (visitor.exprIn value)
    | .lambda _ parameters body => (visitor.parameters parameters).andThen (visitor.expr body)
    | .conditional _ test body orelse =>
      (visitor.expr body).andThen <| (visitor.expr test).andThen (visitor.expr orelse)
    | .binary _ _ left _ right => (visitor.expr left).andThen (visitor.expr right)
    | .unary _ _ operand => visitor.expr operand
    | .compare _ operands _ => visitor.exprs operands
    | .named _ _ value => visitor.expr value
    | .starred _ value _ => visitor.expr value
    | .await _ value => visitor.expr value
    | .yield _ value _ => visitor.exprIn value
    | .invalid _ children => visitor.exprs children

def exprs (visitor : Visitor) : List Expr → Walk Visited
  | [] => .done
  | form :: rest => (visitor.expr form).andThen (visitor.exprs rest)

def exprIn (visitor : Visitor) : Option Expr → Walk Visited
  | none => .done
  | some form => visitor.expr form

def arguments (visitor : Visitor) : List Argument → Walk Visited
  | [] => .done
  | ⟨_, value⟩ :: rest => (visitor.expr value).andThen (visitor.arguments rest)

def dictItems (visitor : Visitor) : List DictItem → Walk Visited
  | [] => .done
  | ⟨key, value⟩ :: rest =>
    (visitor.exprIn key).andThen <| (visitor.expr value).andThen (visitor.dictItems rest)

def generators (visitor : Visitor) : List Generator → Walk Visited
  | [] => .done
  | ⟨_, target, iter, conditions, _⟩ :: rest =>
    (visitor.expr iter).andThen <| (visitor.expr target).andThen <|
      (visitor.exprs conditions).andThen (visitor.generators rest)

def parameters (visitor : Visitor) : List Parameter → Walk Visited
  | [] => .done
  | form :: rest => (visitor.parameter form).andThen (visitor.parameters rest)

def parameter (visitor : Visitor) : Parameter → Walk Visited
  | ⟨mark, target, hint, default, kind, positionalOnly, keywordOnly⟩ =>
    visitor.meet (.parameter ⟨mark, target, hint, default, kind, positionalOnly, keywordOnly⟩) <|
      (visitor.exprIn hint).andThen (visitor.exprIn default)

end

mutual

def pattern (visitor : Visitor) (form : Pattern) : Walk Visited :=
  visitor.meet (.pattern form) <|
    match form with
    | .capture _ | .wildcard _ => .done
    | .value value => visitor.expr value
    | .group items => visitor.patterns items
    | .ofClass subject arguments => (visitor.expr subject).andThen (visitor.patterns arguments)

def patterns (visitor : Visitor) : List Pattern → Walk Visited
  | [] => .done
  | form :: rest => (visitor.pattern form).andThen (visitor.patterns rest)

end

def simple (visitor : Visitor) : SimpleStmt → Walk Visited
  | .assign targets value => (visitor.exprs targets).andThen (visitor.expr value)
  | .annotatedAssign target hint value =>
    (visitor.expr target).andThen <| (visitor.expr hint).andThen (visitor.exprIn value)
  | .augmentedAssign target _ value => (visitor.expr target).andThen (visitor.expr value)
  | .expr value => visitor.expr value
  | .ret value => visitor.exprIn value
  | .delete targets => visitor.exprs targets
  | .raise exception cause => (visitor.exprIn exception).andThen (visitor.exprIn cause)
  | .assert test message => (visitor.expr test).andThen (visitor.exprIn message)
  | .pass | .leaveLoop | .nextRound | .globalNames _ | .nonlocalNames _ | .plainImport _
  | .fromImport _ => .done

def withItems (visitor : Visitor) : List WithItem → Walk Visited
  | [] => .done
  | item :: rest =>
    (visitor.expr item.context).andThen <|
      (visitor.exprIn item.target).andThen (visitor.withItems rest)

mutual

def stmt (visitor : Visitor) (form : Stmt) : Walk Visited :=
  visitor.meet (.stmt form) <|
    match form with
    | .simple _ form => visitor.simple form
    | .functionDef head body =>
      (visitor.exprs head.decorators).andThen <| (visitor.parameters head.parameters).andThen <|
        (visitor.exprIn head.returns).andThen (visitor.stmts body)
    | .classDef head body =>
      (visitor.exprs head.decorators).andThen <| (visitor.arguments head.arguments).andThen <|
        visitor.stmts body
    | .branch _ test body orelse =>
      (visitor.expr test).andThen <| (visitor.stmts body).andThen (visitor.stmts orelse)
    | .forLoop _ target iter _ body orelse =>
      (visitor.expr target).andThen <| (visitor.expr iter).andThen <|
        (visitor.stmts body).andThen (visitor.stmts orelse)
    | .whileLoop _ test body orelse =>
      (visitor.expr test).andThen <| (visitor.stmts body).andThen (visitor.stmts orelse)
    | .tryBlock _ body handlers orelse finalbody =>
      (visitor.stmts body).andThen <| (visitor.handlers handlers).andThen <|
        (visitor.stmts orelse).andThen (visitor.stmts finalbody)
    | .withBlock _ items _ body => (visitor.withItems items).andThen (visitor.stmts body)
    | .matchOn _ subject cases => (visitor.expr subject).andThen (visitor.cases cases)

def stmts (visitor : Visitor) : List Stmt → Walk Visited
  | [] => .done
  | form :: rest => (visitor.stmt form).andThen (visitor.stmts rest)

def handlers (visitor : Visitor) : List Handler → Walk Visited
  | [] => .done
  | ⟨head, body⟩ :: rest =>
    (visitor.exprIn head.kind).andThen <| (visitor.stmts body).andThen (visitor.handlers rest)

def cases (visitor : Visitor) : List MatchCase → Walk Visited
  | [] => .done
  | ⟨head, body⟩ :: rest =>
    (visitor.pattern head.pattern).andThen <| (visitor.exprIn head.guard).andThen <|
      (visitor.stmts body).andThen (visitor.cases rest)

end

end Visitor

/-- Breaks off at the first node with the label `stop`, and does not go below `pruned` ones. -/
def Module.walk (module' : Module) (pruned : List String) (stop : Option String) : Walk Visited :=
  Visitor.stmts ⟨fun node => pruned.contains node.label, fun node => stop == some node.label⟩
    module'.body

end PyStatic
