import PyStatic.Syntax.Outline
import Mathlib.Data.List.Basic

/-!
Contract: what the outlines of parts of a module hold.

The parts of a node are told form by form. What holds of all nodes below one follows from its parts,
with no other look at the forms.
-/

namespace PyStatic

open List

/-- The nodes directly inside, in the order of a visit. -/
def Expr.parts : Expr → List Visited
  | .name _ => []
  | .member _ value _ | .unary _ _ value | .named _ _ value | .starred _ value _ | .await _ value =>
    [.expr value]
  | .subscript _ value indexes => .expr value :: indexes.map .expr
  | .slice _ parts | .literal _ _ _ parts | .collection _ _ parts | .compare _ parts _
  | .invalid _ parts => parts.map .expr
  | .call _ func arguments => .expr func :: arguments.map (.expr ·.value)
  | .dict _ items => items.flatMap fun item => item.key.toList.map .expr ++ [.expr item.value]
  | .comprehension _ _ element value generators =>
    (generators.flatMap fun clause =>
      .expr clause.iter :: .expr clause.target :: clause.conditions.map .expr) ++
        .expr element :: value.toList.map .expr
  | .lambda _ parameters body => parameters.map .parameter ++ [.expr body]
  | .conditional _ test body orelse => [.expr body, .expr test, .expr orelse]
  | .binary _ _ left _ right => [.expr left, .expr right]
  | .yield _ value _ => value.toList.map .expr

def Pattern.parts : Pattern → List Visited
  | .capture _ | .wildcard _ => []
  | .value expr => [.expr expr]
  | .group items => items.map .pattern
  | .ofClass subject arguments => .expr subject :: arguments.map .pattern

def SimpleStmt.parts : SimpleStmt → List Visited
  | .assign targets value => targets.map .expr ++ [.expr value]
  | .annotatedAssign target hint value => .expr target :: .expr hint :: value.toList.map .expr
  | .augmentedAssign target _ value => [.expr target, .expr value]
  | .expr value => [.expr value]
  | .ret value => value.toList.map .expr
  | .delete targets => targets.map .expr
  | .raise exception cause => exception.toList.map .expr ++ cause.toList.map .expr
  | .assert test message => .expr test :: message.toList.map .expr
  | .pass | .leaveLoop | .nextRound | .globalNames _ | .nonlocalNames _ | .plainImport _
  | .fromImport _ => []

def Stmt.parts : Stmt → List Visited
  | .simple _ form => form.parts
  | .functionDef head body =>
    head.decorators.map .expr ++ head.parameters.map .parameter ++ head.returns.toList.map .expr ++
      body.map .stmt
  | .classDef head body =>
    head.decorators.map .expr ++ head.arguments.map (.expr ·.value) ++ body.map .stmt
  | .branch _ test body orelse | .whileLoop _ test body orelse =>
    .expr test :: body.map .stmt ++ orelse.map .stmt
  | .forLoop _ target iter _ body orelse =>
    .expr target :: .expr iter :: body.map .stmt ++ orelse.map .stmt
  | .tryBlock _ body handlers orelse finalbody =>
    body.map .stmt ++ (handlers.flatMap fun handler =>
      handler.head.kind.toList.map .expr ++ handler.body.map .stmt) ++
        orelse.map .stmt ++ finalbody.map .stmt
  | .withBlock _ items _ body =>
    (items.flatMap fun item => .expr item.context :: item.target.toList.map .expr) ++ body.map .stmt
  | .matchOn _ subject cases =>
    .expr subject :: cases.flatMap fun clause =>
      .pattern clause.head.pattern :: clause.head.guard.toList.map .expr ++ clause.body.map .stmt

namespace Visited

def parts : Visited → List Visited
  | stmt form => form.parts
  | expr form => form.parts
  | pattern form => form.parts
  | parameter form => form.hint.toList.map .expr ++ form.default.toList.map .expr

def outline : Visited → Outline Visited
  | stmt form => form.outline
  | expr form => form.outline
  | pattern form => form.outline
  | parameter form => .node (.parameter form)
      (Expr.outlineOf form.hint ++ Expr.outlineOf form.default)

end Visited

@[local simp] theorem Expr.outlines_eq_map (exprs : List Expr) :
    Expr.outlines exprs = (exprs.map .expr).map Visited.outline := by
  induction exprs with
  | nil => rfl
  | cons _ _ ih => rw [Expr.outlines, ih]; rfl

@[local simp] theorem Expr.outlineOf_eq_map (expr : Option Expr) :
    Expr.outlineOf expr = (expr.toList.map .expr).map Visited.outline := by
  cases expr <;> rfl

@[local simp] theorem Argument.outlines_eq_map (arguments : List Argument) :
    Argument.outlines arguments = (arguments.map (.expr ·.value)).map Visited.outline := by
  induction arguments with
  | nil => rfl
  | cons argument _ ih => cases argument; rw [Argument.outlines, ih]; rfl

@[local simp] theorem DictItem.outlines_eq_map (items : List DictItem) :
    DictItem.outlines items = (items.flatMap fun item =>
      item.key.toList.map .expr ++ [.expr item.value]).map Visited.outline := by
  induction items with
  | nil => rfl
  | cons item _ ih => cases item; simp [DictItem.outlines, ih, Visited.outline]

@[local simp] theorem Generator.outlines_eq_map (generators : List Generator) :
    Generator.outlines generators = (generators.flatMap fun clause =>
      .expr clause.iter :: .expr clause.target :: clause.conditions.map .expr).map
        Visited.outline := by
  induction generators with
  | nil => rfl
  | cons clause _ ih => cases clause; simp [Generator.outlines, ih, Visited.outline]

@[local simp] theorem Parameter.outlines_eq_map (parameters : List Parameter) :
    Parameter.outlines parameters = (parameters.map .parameter).map Visited.outline := by
  induction parameters with
  | nil => rfl
  | cons parameter _ ih => cases parameter; rw [Parameter.outlines, ih]; rfl

@[local simp] theorem Pattern.outlines_eq_map (patterns : List Pattern) :
    Pattern.outlines patterns = (patterns.map .pattern).map Visited.outline := by
  induction patterns with
  | nil => rfl
  | cons _ _ ih => rw [Pattern.outlines, ih]; rfl

@[local simp] theorem Stmt.outlines_eq_map (body : List Stmt) :
    Stmt.outlines body = (body.map .stmt).map Visited.outline := by
  induction body with
  | nil => rfl
  | cons _ _ ih => rw [Stmt.outlines, ih]; rfl

@[local simp] theorem Handler.outlines_eq_map (handlers : List Handler) :
    Handler.outlines handlers = (handlers.flatMap fun handler =>
      handler.head.kind.toList.map .expr ++ handler.body.map .stmt).map Visited.outline := by
  induction handlers with
  | nil => rfl
  | cons handler _ ih => cases handler; simp [Handler.outlines, ih]

@[local simp] theorem MatchCase.outlines_eq_map (cases : List MatchCase) :
    MatchCase.outlines cases = (cases.flatMap fun clause =>
      .pattern clause.head.pattern :: clause.head.guard.toList.map .expr ++
        clause.body.map .stmt).map Visited.outline := by
  induction cases with
  | nil => rfl
  | cons clause _ ih => cases clause; simp [MatchCase.outlines, ih, Visited.outline]

@[local simp] theorem WithItem.outlines_eq_map (items : List WithItem) :
    WithItem.outlines items = (items.flatMap fun item =>
      .expr item.context :: item.target.toList.map .expr).map Visited.outline := by
  simp [WithItem.outlines, map_flatMap, Visited.outline]

@[local simp] theorem SimpleStmt.outlines_eq_map (form : SimpleStmt) :
    form.outlines = form.parts.map Visited.outline := by
  cases form <;> simp [SimpleStmt.outlines, SimpleStmt.parts, Visited.outline]

/-- An outline is a node with the outlines of its parts. -/
theorem Visited.outline_eq (node : Visited) :
    node.outline = .node node (node.parts.map Visited.outline) := by
  cases node with
  | parameter => simp [outline, parts]
  | pattern form => cases form <;> simp [outline, parts, Pattern.outline, Pattern.parts]
  | expr form => cases form <;> simp [outline, parts, Expr.outline, Expr.parts]
  | stmt form =>
    cases form <;>
      simp [outline, parts, Stmt.outline, Stmt.parts, FunctionHead.outlines, ClassHead.outlines]

theorem Outline.preorderOfAll_append {α : Type} (first second : List (Outline α)) :
    Outline.preorderOfAll (first ++ second) =
      Outline.preorderOfAll first ++ Outline.preorderOfAll second := by
  induction first with
  | nil => rw [Outline.preorderOfAll, nil_append, nil_append]
  | cons _ _ ih =>
    rw [cons_append, Outline.preorderOfAll, Outline.preorderOfAll, ih, append_assoc]

def StmtFree (outlines : List (Outline Visited)) : Prop :=
  ∀ visited ∈ Outline.preorderOfAll outlines, visited.stmt? = none

theorem stmtFree_nil : StmtFree [] := by
  intro visited isIn
  rw [Outline.preorderOfAll] at isIn
  exact absurd isIn (not_mem_nil)

section StmtFree

variable {first second : List (Outline Visited)}

theorem StmtFree.append (left : StmtFree first) (right : StmtFree second) :
    StmtFree (first ++ second) := by
  intro visited isIn
  rw [Outline.preorderOfAll_append, mem_append] at isIn
  rcases isIn with isFirst | isSecond
  · exact left visited isFirst
  · exact right visited isSecond

theorem StmtFree.of_each {outlines : List (Outline Visited)}
    (each : ∀ outline ∈ outlines, StmtFree [outline]) : StmtFree outlines := by
  induction outlines with
  | nil => exact stmtFree_nil
  | cons outline _ ih =>
    rw [forall_mem_cons] at each
    exact each.1.append (ih each.2)

theorem StmtFree.cons {outline : Outline Visited} (left : StmtFree [outline])
    (right : StmtFree second) : StmtFree (outline :: second) :=
  left.append right

theorem StmtFree.node (below : StmtFree first) {item : Visited} (isNoStmt : item.stmt? = none) :
    StmtFree [.node item first] := by
  intro visited isIn
  simp only [Outline.preorderOfAll, Outline.preorder, append_nil, mem_cons] at isIn
  rcases isIn with rfl | isBelow
  · exact isNoStmt
  · exact below visited isBelow

end StmtFree

attribute [local simp] Visited.stmt? filterMap_flatMap

theorem Visited.parts_noStmt {node : Visited} (isNoStmt : node.stmt? = none) :
    node.parts.filterMap (·.stmt?) = [] := by
  cases node with
  | stmt => cases isNoStmt
  | parameter => simp [parts]
  | pattern form => cases form <;> simp [parts, Pattern.parts]
  | expr form => cases form <;> simp [parts, Expr.parts]

/-- Statements stand in statements only. -/
theorem Visited.stmtFree (node : Visited) (isNoStmt : node.stmt? = none) :
    StmtFree [node.outline] := by
  rw [outline_eq]
  refine StmtFree.node (.of_each fun outline isIn => ?_) isNoStmt
  obtain ⟨part, isPart, rfl⟩ := mem_map.mp isIn
  exact part.stmtFree (filterMap_eq_nil_iff.mp (parts_noStmt isNoStmt) part isPart)
termination_by sizeOf node.outline
decreasing_by
  rw [node.outline_eq]
  have smaller := sizeOf_lt_of_mem (mem_map_of_mem (f := Visited.outline) isPart)
  simp only [Outline.node.sizeOf_spec]
  omega

theorem Expr.stmtFree (expr : Expr) : StmtFree [expr.outline] :=
  (Visited.expr expr).stmtFree rfl

theorem Pattern.stmtFree (pattern : Pattern) : StmtFree [pattern.outline] :=
  (Visited.pattern pattern).stmtFree rfl

theorem stmtFree_map {nodes : List Visited} (noStmts : nodes.filterMap (·.stmt?) = []) :
    StmtFree (nodes.map Visited.outline) := by
  refine .of_each fun outline isIn => ?_
  obtain ⟨node, isNode, rfl⟩ := mem_map.mp isIn
  exact node.stmtFree (filterMap_eq_nil_iff.mp noStmts node isNode)

theorem Expr.stmtFreeOfOption (expr : Option Expr) : StmtFree (Expr.outlineOf expr) := by
  rw [outlineOf_eq_map]
  exact stmtFree_map (by simp)

theorem SimpleStmt.stmtFree (form : SimpleStmt) : StmtFree form.outlines := by
  rw [outlines_eq_map]
  exact stmtFree_map (by cases form <;> simp [parts])

theorem WithItem.stmtFree (items : List WithItem) : StmtFree (WithItem.outlines items) := by
  rw [outlines_eq_map]
  exact stmtFree_map (by simp)

end PyStatic
