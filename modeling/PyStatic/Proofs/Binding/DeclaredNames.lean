import PyStatic.Proofs.Binding.ScopeItems
import PyStatic.Proofs.Syntax.Outlines
import PyStatic.Proofs.Syntax.Walks

/-!
Contract: the names that a suite declares are found before it is surveyed.

They are found by a visit that enters no inner scope. What they stand for is not decided here.
-/

namespace PyStatic

open List

def Mention.declared (isGlobal : Bool) (mentions : List Mention) : List String :=
  mentions.filterMap fun
    | .declares wanted name => if wanted = isGlobal then some name.text else none
    | _ => none

theorem Mention.mem_declared {isGlobal : Bool} {mentions : List Mention} {text : String} :
    text ∈ Mention.declared isGlobal mentions ↔
      ∃ name : Identifier, .declares isGlobal name ∈ mentions ∧ name.text = text := by
  rw [Mention.declared, mem_filterMap]
  constructor
  · rintro ⟨mention, isIn, isText⟩
    cases mention with
    | declares _ name =>
      dsimp only at isText
      split at isText
      next same => exact ⟨name, same ▸ isIn, Option.some.inj isText⟩
      next => cases isText
    | _ => cases isText
  · rintro ⟨name, isIn, rfl⟩
    exact ⟨.declares isGlobal name, isIn, if_pos rfl⟩

namespace ScopeItem

def declared (isGlobal : Bool) (items : List ScopeItem) : List String :=
  Mention.declared isGlobal (mentions items)

variable {isGlobal : Bool}

theorem declared_append (first second : List ScopeItem) :
    declared isGlobal (first ++ second) = declared isGlobal first ++ declared isGlobal second := by
  rw [declared, mentions_append, Mention.declared, filterMap_append]
  rfl

theorem AllInExpr.declared {items : List ScopeItem} (inExpr : AllInExpr items) :
    ScopeItem.declared isGlobal items = [] := by
  rw [ScopeItem.declared, Mention.declared, filterMap_eq_nil_iff]
  intro said isSaid
  obtain ⟨item, isIn, isMention⟩ := mem_filterMap.mp isSaid
  cases inExpr item isIn with
  | opens => cases isMention
  | _ =>
    cases isMention
    rfl

theorem declared_declaring (wanted : Bool) (names : List Identifier) :
    declared isGlobal (declaring wanted names) =
      if wanted = isGlobal then names.map (·.text) else [] := by
  induction names with
  | nil => exact (ite_self _).symm
  | cons name rest ih =>
    show declared isGlobal ([mention (.declares wanted name)] ++ declaring wanted rest) = _
    rw [declared_append, ih]
    by_cases same : wanted = isGlobal
    · simp only [declared, mentions, Mention.declared, filterMap_cons, filterMap_nil,
        mention?, if_pos same]
      rfl
    · simp only [declared, mentions, Mention.declared, filterMap_cons, filterMap_nil,
        mention?, if_neg same]
      rfl

end ScopeItem

open Outline ScopeItem

/-- Declarations in an inner scope are not those of the suite. -/
def Visited.isShut : Visited → Bool
  | .stmt (.functionDef _ _) | .stmt (.classDef _ _) | .expr _ => true
  | _ => false

def Stmt.declares (isGlobal : Bool) : Stmt → List String
  | .simple _ (.globalNames names) => if isGlobal then names.map (·.text) else []
  | .simple _ (.nonlocalNames names) => if isGlobal then [] else names.map (·.text)
  | _ => []

def Outline.declared (isGlobal : Bool) (outlines : List (Outline Visited)) : List String :=
  ((reached Visited.isShut outlines).filterMap (·.stmt?)).flatMap (Stmt.declares isGlobal)

section Declared

variable {isGlobal : Bool}

theorem Outline.declared_append (first second : List (Outline Visited)) :
    Outline.declared isGlobal (first ++ second) =
      Outline.declared isGlobal first ++ Outline.declared isGlobal second := by
  rw [Outline.declared, reached_append, filterMap_append, flatMap_append]
  rfl

theorem StmtFree.declared {outlines : List (Outline Visited)} (free : StmtFree outlines) :
    Outline.declared isGlobal outlines = [] := by
  have none : (reached Visited.isShut outlines).filterMap (·.stmt?) = [] := by
    rw [filterMap_eq_nil_iff]
    exact fun visited isMet => free visited (reached_subset outlines isMet)
  rw [Outline.declared, none, flatMap_nil]

theorem Outline.declared_stmt {stmt : Stmt} (isOpen : Visited.isShut (.stmt stmt) = false)
    (below : List (Outline Visited)) :
    Outline.declared isGlobal [.node (.stmt stmt) below] =
      stmt.declares isGlobal ++ Outline.declared isGlobal below := by
  rw [Outline.declared, reached_node, if_neg (by rw [isOpen]; exact Bool.false_ne_true)]
  rfl

section Agree

variable {outlines below : List (Outline Visited)} {items others : List ScopeItem}

theorem declared_both
    (first : Outline.declared isGlobal outlines = ScopeItem.declared isGlobal items)
    (second : Outline.declared isGlobal below = ScopeItem.declared isGlobal others) :
    Outline.declared isGlobal (outlines ++ below) =
      ScopeItem.declared isGlobal (items ++ others) := by
  rw [Outline.declared_append, first, second, ScopeItem.declared_append]

theorem StmtFree.declared_eq (free : StmtFree outlines) (inExpr : AllInExpr items) :
    Outline.declared isGlobal outlines = ScopeItem.declared isGlobal items := by
  rw [free.declared, inExpr.declared]

theorem declared_suites
    (inside : Outline.declared isGlobal below = ScopeItem.declared isGlobal items) {stmt : Stmt}
    (isOpen : Visited.isShut (.stmt stmt) = false)
    (declaresNothing : stmt.declares isGlobal = []) :
    Outline.declared isGlobal [.node (.stmt stmt) below] = ScopeItem.declared isGlobal items := by
  rw [Outline.declared_stmt isOpen, declaresNothing, nil_append, inside]

theorem declared_definition {stmt : Stmt} (isShut : Visited.isShut (.stmt stmt) = true)
    (declaresNothing : stmt.declares isGlobal = []) (inExpr : AllInExpr items) {kind : ScopeKind} :
    Outline.declared isGlobal [.node (.stmt stmt) below] =
      ScopeItem.declared isGlobal (items ++ [.opens kind others]) := by
  rw [ScopeItem.declared_append, inExpr.declared, Outline.declared, reached_node, if_pos isShut]
  show stmt.declares isGlobal ++ [] = []
  rw [declaresNothing, append_nil]

end Agree

theorem FromImport.declared_items (imported : FromImport) (around : Surroundings) (mark : Mark) :
    ScopeItem.declared isGlobal (imported.items around mark) = [] := by
  rw [FromImport.items]
  split
  · exact (allInExpr_binding _).declared
  · split
    · split
      · rfl
      · rfl
    · exact (allInExpr_binding _).declared

theorem SimpleStmt.declared_items (around : Surroundings) (mark : Mark) (form : SimpleStmt) :
    ScopeItem.declared isGlobal (form.items around mark) =
      (Stmt.simple mark form).declares isGlobal := by
  cases form with
  | assign targets value =>
    exact ((value.items_inExpr .read).append (Expr.itemsOfAll_inExpr targets .target)).declared
  | annotatedAssign target hint value =>
    exact (((hint.items_inExpr .read).append (Expr.itemsOfOption_inExpr value)).append
      (target.items_inExpr .target)).declared
  | augmentedAssign target _ value =>
    exact ((value.items_inExpr .read).append (target.items_inExpr _)).declared
  | expr value => exact (value.items_inExpr .read).declared
  | ret value => exact (Expr.itemsOfOption_inExpr value).declared
  | delete targets => exact (Expr.itemsOfAll_inExpr targets .read).declared
  | raise exception cause =>
    exact ((Expr.itemsOfOption_inExpr exception).append (Expr.itemsOfOption_inExpr cause)).declared
  | assert test message =>
    exact ((test.items_inExpr .read).append (Expr.itemsOfOption_inExpr message)).declared
  | globalNames _
  | nonlocalNames =>
    rw [SimpleStmt.items, declared_declaring]
    cases isGlobal <;> rfl
  | plainImport => exact (allInExpr_binding _).declared
  | fromImport imported => exact imported.declared_items around mark
  | _ => rfl

variable (around : Surroundings)

mutual

theorem Stmt.declared_outline : ∀ stmt : Stmt,
    Outline.declared isGlobal [stmt.outline] = ScopeItem.declared isGlobal (stmt.items around)
  | .simple _ form => by
    rw [Stmt.outline, Outline.declared_stmt rfl, form.stmtFree.declared, append_nil,
      Stmt.items, form.declared_items]
  | .functionDef head _ | .classDef head _ => declared_definition rfl rfl head.items_inExpr
  | .branch _ test body orelse | .whileLoop _ test body orelse =>
    declared_suites (declared_both (declared_both
      (test.stmtFree.declared_eq (test.items_inExpr .read)) (Stmt.declared_outlines body))
        (Stmt.declared_outlines orelse)) rfl rfl
  | .forLoop _ target iter _ body orelse =>
    declared_suites (declared_both (declared_both ((target.stmtFree.cons iter.stmtFree).declared_eq
      ((iter.items_inExpr .read).append (target.items_inExpr .target)))
        (Stmt.declared_outlines body)) (Stmt.declared_outlines orelse)) rfl rfl
  | .tryBlock _ body handlers orelse finalbody =>
    declared_suites (declared_both (declared_both (declared_both (Stmt.declared_outlines body)
      (Handler.declared_outlines handlers)) (Stmt.declared_outlines orelse))
        (Stmt.declared_outlines finalbody)) rfl rfl
  | .withBlock _ managers _ body =>
    declared_suites (declared_both ((WithItem.stmtFree managers).declared_eq
      (WithItem.items_inExpr managers)) (Stmt.declared_outlines body)) rfl rfl
  | .matchOn _ subject cases =>
    declared_suites (declared_both (subject.stmtFree.declared_eq (subject.items_inExpr .read))
      (MatchCase.declared_outlines cases)) rfl rfl

theorem Stmt.declared_outlines : ∀ suite : List Stmt,
    Outline.declared isGlobal (Stmt.outlines suite) =
      ScopeItem.declared isGlobal (Stmt.itemsOfAll around suite)
  | [] => stmtFree_nil.declared_eq allInExpr_nil
  | stmt :: rest => declared_both (Stmt.declared_outline stmt) (Stmt.declared_outlines rest)

theorem Handler.declared_outlines : ∀ handlers : List Handler,
    Outline.declared isGlobal (Handler.outlines handlers) =
      ScopeItem.declared isGlobal (Handler.items around handlers)
  | [] => stmtFree_nil.declared_eq allInExpr_nil
  | ⟨head, body⟩ :: rest =>
    declared_both (declared_both ((Expr.stmtFreeOfOption head.kind).declared_eq head.items_inExpr)
      (Stmt.declared_outlines body)) (Handler.declared_outlines rest)

theorem MatchCase.declared_outlines : ∀ cases : List MatchCase,
    Outline.declared isGlobal (MatchCase.outlines cases) =
      ScopeItem.declared isGlobal (MatchCase.items around cases)
  | [] => stmtFree_nil.declared_eq allInExpr_nil
  | ⟨head, body⟩ :: rest =>
    declared_both (declared_both ((head.pattern.stmtFree.append
      (Expr.stmtFreeOfOption head.guard)).declared_eq head.items_inExpr)
        (Stmt.declared_outlines body)) (MatchCase.declared_outlines rest)

end

end Declared

namespace Survey

theorem ownStmts_eq (suite : List Stmt) :
    Stmt.ownStmts suite =
      (reached Visited.isShut (Stmt.outlines suite)).filterMap (·.stmt?) :=
  rfl

theorem declaredGlobal_eq (around : Surroundings) (suite : List Stmt) :
    declaredGlobal suite = ScopeItem.declared true (Stmt.itemsOfAll around suite) := by
  rw [← Stmt.declared_outlines around suite, declaredGlobal, ownStmts_eq, Outline.declared]
  congr 1
  funext stmt
  cases stmt with
  | simple _ form => cases form <;> rfl
  | _ => rfl

theorem declaredNonlocal_eq (around : Surroundings) (suite : List Stmt) :
    declaredNonlocal suite = ScopeItem.declared false (Stmt.itemsOfAll around suite) := by
  rw [← Stmt.declared_outlines around suite, declaredNonlocal, ownStmts_eq, Outline.declared]
  congr 1
  funext stmt
  cases stmt with
  | simple _ form => cases form <;> rfl
  | _ => rfl

end Survey

end PyStatic
