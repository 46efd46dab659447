import PyStatic.Syntax.Reading.Import
import PyStatic.Syntax.Reading.Pattern

/-!
Contract: the meaning of a concrete node as statements.

A node may stand for several statements, or for none: blocks and faulty stretches are spliced into
the suite around them, and a definition or an assertion whose essential part is missing is dropped.
-/

namespace PyStatic.Shape

/-- A type hint counts only on the first target. -/
def assignment (shape : Shape) (mark : Mark) (targets : List Expr) : Numbered Stmt := do
  let target ← shape.labelledExpr "left"
  match targets, shape.labelled? "type" with
  | [], some hint =>
    let hint ← hint.expr
    let value ← Numbered.onSome (·.expr) (shape.labelled? "right")
    return .simple mark (.annotatedAssign target hint value)
  | _, _ =>
    let targets := targets ++ [target]
    match shape.labelled? "right" with
    | some right =>
      if right.kind == "assignment" then right.assignment mark targets
      else return .simple mark (.assign targets (← right.expr))
    | none => return .simple mark (.assign targets (← shape.unreadable))

def augmentedAssign (shape : Shape) (range : TextRange) : Numbered Stmt := do
  let mark ← Numbered.freshMark range
  let target ← shape.labelledExpr "left"
  let value ← shape.labelledExpr "right"
  return .simple mark
    (.augmentedAssign target ((shape.labelledText? "operator").getD "") value)

def expressionStatement (shape : Shape) : Numbered Stmt :=
  match shape.named with
  | [only] =>
    if only.kind == "assignment" then do
      let mark ← Numbered.freshMark shape.range
      only.assignment mark []
    else if only.kind == "augmented_assignment" then
      only.shape.augmentedAssign shape.range
    else do
      let mark ← Numbered.freshMark shape.range
      return .simple mark (.expr (← only.expr))
  | _ => do
      let mark ← Numbered.freshMark shape.range
      return .simple mark (.expr (← shape.collection .tuple))

def functionDef (shape : Shape) (range : TextRange) (decorators : List Expr) :
    Numbered Stmt := do
  let mark ← Numbered.freshMark range
  let name ← shape.labelledIdentifier "name"
  let parameters ← shape.parameters
  let returns ← Numbered.onSome (·.expr) (shape.labelled? "return_type")
  let body ← Reading.suiteOf (shape.labelled? "body")
  return .functionDef
    { mark, name, parameters, returns, decorators, isAsync := shape.hasToken "async" } body

def classDef (shape : Shape) (range : TextRange) (decorators : List Expr) : Numbered Stmt := do
  let mark ← Numbered.freshMark range
  let name ← shape.labelledIdentifier "name"
  let arguments ←
    match shape.labelled? "superclasses" with
    | some list => list.shape.arguments
    | none => pure []
  let body ← Reading.suiteOf (shape.labelled? "body")
  return .classDef { mark, name, arguments, decorators } body

def decoratedDefinition (shape : Shape) : Numbered (List Stmt) := do
  let applied := (shape.named.filter (·.kind == "decorator")).filterMap (·.shape.firstNamed?)
  let decorators ← applied.mapM (·.expr)
  match shape.labelled? "definition" with
  | some definition =>
    if definition.kind == "class_definition" then
      return [← definition.shape.classDef shape.range decorators]
    else
      return [← definition.shape.functionDef shape.range decorators]
  | none => return []

def deletion (shape : Shape) : Numbered Stmt := do
  let mark ← Numbered.freshMark shape.range
  let targets ←
    match shape.firstNamed? with
    | some only =>
      if only.kind == "expression_list" then only.shape.namedExprs
      else do
        let target ← only.expr
        pure [target]
    | none => pure []
  return .simple mark (.delete targets)

def raised? (shape : Shape) : Option Reading :=
  let cause := shape.children.findIdx? (·.info.label == some "cause")
  let candidates := shape.children.zipIdx.filter fun entry =>
    entry.1.info.flags.isNamed && !entry.1.info.flags.isExtra && some entry.2 != cause
  candidates.head?.map (·.1)

def raising (shape : Shape) : Numbered Stmt := do
  let mark ← Numbered.freshMark shape.range
  let exception ← Numbered.onSome (·.expr) shape.raised?
  let cause ← Numbered.onSome (·.expr) (shape.labelled? "cause")
  return .simple mark (.raise exception cause)

def assertion (shape : Shape) : Numbered (List Stmt) := do
  let mark ← Numbered.freshMark shape.range
  match shape.named with
  | [] => return []
  | test :: rest =>
    let test ← test.expr
    let message ← Numbered.onSome (·.expr) rest.head?
    return [.simple mark (.assert test message)]

def declaredNames (shape : Shape) : Numbered (List Identifier) :=
  (shape.named.filter (·.kind == "identifier")).mapM (·.shape.identifier)

def clauseSuite (shape : Shape) : Numbered (List Stmt) :=
  Reading.suiteOf (shape.labelled? "body" <|> shape.named.find? (·.kind == "block"))

def clauseSuiteOf (clause : Option Reading) : Numbered (List Stmt) :=
  match clause with
  | some clause => clause.shape.clauseSuite
  | none => pure []

/-- Each `elif` is an `if` that spans to the end of the last clause. -/
def alternatives : List Reading → Numbered (List Stmt)
  | [] => pure []
  | first :: rest =>
    if first.kind == "elif_clause" then do
      let last := rest.getLast?.getD first
      let mark ← Numbered.freshMark (first.range.cover last.range)
      let test ← first.shape.labelledExpr "condition"
      let body ← Reading.suiteOf (first.shape.labelled? "consequence")
      return [.branch mark test body (← alternatives rest)]
    else
      first.shape.clauseSuite

def branching (shape : Shape) : Numbered Stmt := do
  let mark ← Numbered.freshMark shape.range
  let test ← shape.labelledExpr "condition"
  let body ← Reading.suiteOf (shape.labelled? "consequence")
  return .branch mark test body (← alternatives (shape.labelled "alternative"))

def forLoop (shape : Shape) : Numbered Stmt := do
  let mark ← Numbered.freshMark shape.range
  let target ← shape.labelledExpr "left"
  let iter ← shape.labelledExpr "right"
  let body ← Reading.suiteOf (shape.labelled? "body")
  let orelse ← clauseSuiteOf (shape.labelled? "alternative")
  return .forLoop mark target iter (shape.hasToken "async") body orelse

def whileLoop (shape : Shape) : Numbered Stmt := do
  let mark ← Numbered.freshMark shape.range
  let test ← shape.labelledExpr "condition"
  let body ← Reading.suiteOf (shape.labelled? "body")
  return .whileLoop mark test body (← clauseSuiteOf (shape.labelled? "alternative"))

def caught (parts : List Reading) : Numbered (Option Expr × Option Identifier) :=
  match parts with
  | [only] =>
    if only.kind == "as_pattern" then do
      let kind ← Numbered.onSome (·.expr) only.shape.firstNamed?
      let bound := ((only.shape.labelled? "alias").bind Reading.aliasTarget?).filter
        (·.kind == "identifier")
      return (kind, ← Numbered.onSome (·.shape.identifier) bound)
    else do
      return (some (← only.expr), none)
  | [kind, name] => do
      let kind ← kind.expr
      let bound := if name.kind == "identifier" then some name else none
      return (some kind, ← Numbered.onSome (·.shape.identifier) bound)
  | _ => pure (none, none)

def handler (shape : Shape) : Numbered Handler := do
  let mark ← Numbered.freshMark shape.range
  let (kind, name) ← caught (shape.named.filter (·.kind != "block"))
  let body ← Reading.suiteOf (shape.named.find? (·.kind == "block"))
  return ⟨{ mark, kind, name, isGroup := shape.kind == "except_group_clause" }, body⟩

structure TryClauses where
  handlers : List Handler
  orelse : List Stmt
  finalbody : List Stmt

def tryClausesFrom (before : TryClauses) : List Reading → Numbered TryClauses
  | [] => pure before
  | clause :: rest =>
    match clause.kind with
    | "except_clause" | "except_group_clause" => do
        let handler ← clause.shape.handler
        tryClausesFrom { before with handlers := before.handlers ++ [handler] } rest
    | "else_clause" => do
        let orelse ← clause.shape.clauseSuite
        tryClausesFrom { before with orelse } rest
    | "finally_clause" => do
        let finalbody ← clause.shape.clauseSuite
        tryClausesFrom { before with finalbody } rest
    | _ => tryClausesFrom before rest

def tryBlock (shape : Shape) : Numbered Stmt := do
  let mark ← Numbered.freshMark shape.range
  let body ← Reading.suiteOf (shape.labelled? "body")
  let clauses ← tryClausesFrom ⟨[], [], []⟩ shape.named
  return .tryBlock mark body clauses.handlers clauses.orelse clauses.finalbody

def withItemOf (shape : Shape) (value : Reading) : Numbered WithItem := do
  if value.kind == "as_pattern" then
    let context ← value.shape.firstNamedExpr
    let bound := (value.shape.labelled? "alias").bind Reading.aliasTarget?
    return ⟨shape.range, context, ← Numbered.onSome (·.expr) bound⟩
  else
    let context ← value.expr
    return ⟨shape.range, context, ← Numbered.onSome (·.expr) (shape.labelled? "alias")⟩

def withItem? (shape : Shape) : Numbered (Option WithItem) :=
  if shape.kind == "with_item" then
    match shape.labelled? "value" <|> shape.firstNamed? with
    | some value => some <$> shape.withItemOf value
    | none => pure none
  else
    pure none

def withBlock (shape : Shape) : Numbered Stmt := do
  let mark ← Numbered.freshMark shape.range
  let managers : List Reading :=
    match shape.named.find? (·.kind == "with_clause") with
    | some clause => clause.shape.named
    | none => []
  let items ← managers.mapM (·.shape.withItem?)
  let body ← Reading.suiteOf (shape.labelled? "body")
  return .withBlock mark (items.filterMap id) (shape.hasToken "async") body

def matchCase (shape : Shape) : Numbered MatchCase := do
  let mark ← Numbered.freshMark shape.range
  let pattern ←
    match shape.named.filter (·.kind == "case_pattern") with
    | [only] => only.pattern
    | several => do
        let items ← several.mapM (·.pattern)
        pure (.group items)
  let condition := (shape.labelled? "guard").bind (·.shape.firstNamed?)
  let guard ← Numbered.onSome (·.expr) condition
  let body ← Reading.suiteOf (shape.labelled? "consequence")
  return ⟨{ mark, pattern, guard }, body⟩

def matchSubject (shape : Shape) : Numbered Expr :=
  match shape.labelled "subject" with
  | [only] => only.expr
  | several => do
      let mark ← Numbered.freshMark shape.range
      return .collection mark .tuple (← several.mapM (·.expr))

def matching (shape : Shape) : Numbered Stmt := do
  let mark ← Numbered.freshMark shape.range
  let subject ← shape.matchSubject
  let clauses : List Reading :=
    match shape.labelled? "body" with
    | some body => body.shape.named.filter (·.kind == "case_clause")
    | none => []
  return .matchOn mark subject (← clauses.mapM (·.shape.matchCase))

def keyword (shape : Shape) (form : SimpleStmt) : Numbered Stmt := do
  return .simple (← Numbered.freshMark shape.range) form

def statements (shape : Shape) (value : Numbered Expr) : Numbered (List Stmt) :=
  match shape.kind with
  | "ERROR" | "block" => shape.suite
  | "expression_statement" => List.singleton <$> shape.expressionStatement
  | "function_definition" => List.singleton <$> shape.functionDef shape.range []
  | "class_definition" => List.singleton <$> shape.classDef shape.range []
  | "decorated_definition" => shape.decoratedDefinition
  | "return_statement" => do
      let mark ← Numbered.freshMark shape.range
      return [.simple mark (.ret (← Numbered.onSome (·.expr) shape.firstNamed?))]
  | "delete_statement" => List.singleton <$> shape.deletion
  | "raise_statement" => List.singleton <$> shape.raising
  | "assert_statement" => shape.assertion
  | "pass_statement" => List.singleton <$> shape.keyword .pass
  | "break_statement" => List.singleton <$> shape.keyword .leaveLoop
  | "continue_statement" => List.singleton <$> shape.keyword .nextRound
  | "global_statement" => do
      let mark ← Numbered.freshMark shape.range
      return [.simple mark (.globalNames (← shape.declaredNames))]
  | "nonlocal_statement" => do
      let mark ← Numbered.freshMark shape.range
      return [.simple mark (.nonlocalNames (← shape.declaredNames))]
  | "import_statement" => do
      let mark ← Numbered.freshMark shape.range
      return [.simple mark (.plainImport (← shape.importAliases))]
  | "import_from_statement" | "future_import_statement" => List.singleton <$> shape.fromImport
  | "if_statement" => List.singleton <$> shape.branching
  | "for_statement" => List.singleton <$> shape.forLoop
  | "while_statement" => List.singleton <$> shape.whileLoop
  | "try_statement" => List.singleton <$> shape.tryBlock
  | "with_statement" => List.singleton <$> shape.withBlock
  | "match_statement" => List.singleton <$> shape.matching
  | "print_statement" | "exec_statement" => do
      let mark ← Numbered.freshMark shape.range
      return [.simple mark (.expr (← shape.collection .tuple))]
  | _ => do
      let mark ← Numbered.freshMark shape.range
      return [.simple mark (.expr (← value))]

end PyStatic.Shape
