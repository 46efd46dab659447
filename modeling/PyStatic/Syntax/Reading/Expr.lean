import PyStatic.Syntax.Reading.Literal
import PyStatic.Syntax.Reading.Parameter

/-!
Contract: the meaning of a concrete node as an expression.

Reading never fails. A node takes its identity before its children take theirs, except where it
stands in for a child that is missing. A rule without a reading of its own becomes `invalid` over
the readings of its named children.
-/

namespace PyStatic.Shape

def collection (shape : Shape) (form : CollectionShape) : Numbered Expr := do
  let mark ← Numbered.freshMark shape.range
  return .collection mark form (← shape.namedExprs)

def invalid (shape : Shape) : Numbered Expr := do
  let mark ← Numbered.freshMark shape.range
  return .invalid mark (← shape.namedExprs)

def literal (shape : Shape) (kind : LiteralKind) : Numbered Expr := do
  return .literal (← Numbered.freshMark shape.range) kind shape.text []

def parenthesized (shape : Shape) : Numbered Expr :=
  match shape.firstNamed? with
  | some inner => if inner.info.flags.isExtra then shape.collection .tuple else inner.expr
  | none => shape.collection .tuple

def member (shape : Shape) : Numbered Expr := do
  let mark ← Numbered.freshMark shape.range
  let value ← shape.labelledExpr "object"
  return .member mark value (← shape.labelledIdentifier "attribute")

def subscript (shape : Shape) : Numbered Expr := do
  let mark ← Numbered.freshMark shape.range
  let value ← shape.labelledExpr "value"
  return .subscript mark value (← (shape.labelled "subscript").mapM (·.expr))

def slice (shape : Shape) : Numbered Expr := do
  let mark ← Numbered.freshMark shape.range
  return .slice mark (← shape.namedExprs)

def call (shape : Shape) : Numbered Expr := do
  let mark ← Numbered.freshMark shape.range
  let func ← shape.labelledExpr "function"
  let arguments ←
    match shape.labelled? "arguments" with
    | some list =>
      if list.kind == "generator_expression" then do
        let value ← list.expr
        pure [(⟨none, value⟩ : Argument)]
      else
        list.shape.arguments
    | none => pure []
  return .call mark func arguments

def interpolated? (shape : Shape) : Option Reading :=
  if shape.kind == "interpolation" then
    shape.labelled? "expression" <|> shape.firstNamed?
  else
    none

def stringParts (shape : Shape) : List Shape :=
  if shape.kind == "concatenated_string" then shape.named.map (·.shape) else [shape]

def string (shape : Shape) : Numbered Expr := do
  let mark ← Numbered.freshMark shape.range
  let parts := shape.stringParts
  let kind := (parts.map fun part => LiteralText.stringLetters part.text).foldl
    LiteralText.stringKind .str
  let held := parts.flatMap fun part => part.named.filterMap fun child => child.shape.interpolated?
  return .literal mark kind shape.text (← held.mapM (·.expr))

def dictionary (shape : Shape) : Numbered Expr := do
  let mark ← Numbered.freshMark shape.range
  let items ← shape.named.mapM fun child => do
    if child.kind == "pair" then
      let key ← child.shape.labelledExpr "key"
      let value ← child.shape.labelledExpr "value"
      return (⟨some key, value⟩ : DictItem)
    else
      let inner := if child.kind == "dictionary_splat" then child.shape.firstNamed? else none
      return ⟨none, ← (inner.getD child).expr⟩
  return .dict mark items

def iterable (shape : Shape) : Numbered Expr :=
  match shape.labelled "right" with
  | [only] => only.expr
  | [] => shape.unreadable
  | several => do
      let mark ← Numbered.freshMark shape.range
      return .collection mark .tuple (← several.mapM (·.expr))

def addCondition (condition : Expr) : List Generator → List Generator
  | [] => []
  | [last] => [{ last with conditions := last.conditions ++ [condition] }]
  | first :: rest => first :: addCondition condition rest

def clausesFrom (before : List Generator) : List Reading → Numbered (List Generator)
  | [] => pure before
  | child :: rest =>
    if child.kind == "for_in_clause" then do
      let target ← child.shape.labelledExpr "left"
      let iter ← child.shape.iterable
      let clause : Generator :=
        { range := child.range, target, iter, conditions := [],
          isAsync := child.shape.hasToken "async" }
      clausesFrom (before ++ [clause]) rest
    else if child.kind == "if_clause" then
      match child.shape.firstNamed? with
      | some condition => do
          let condition ← condition.expr
          clausesFrom (addCondition condition before) rest
      | none => clausesFrom before rest
    else
      clausesFrom before rest

def comprehension (shape : Shape) (kind : ComprehensionKind) : Numbered Expr := do
  let mark ← Numbered.freshMark shape.range
  let (element, value) ←
    match shape.labelled? "body" with
    | some body =>
      if body.kind == "pair" then do
        let key ← body.shape.labelledExpr "key"
        let value ← body.shape.labelledExpr "value"
        pure (key, some value)
      else do
        let element ← body.expr
        pure (element, none)
    | none => do
        let element ← shape.unreadable
        pure (element, none)
  return .comprehension mark kind element value (← clausesFrom [] shape.named)

def lambda (shape : Shape) : Numbered Expr := do
  let mark ← Numbered.freshMark shape.range
  let parameters ← shape.parameters
  return .lambda mark parameters (← shape.labelledExpr "body")

def conditional (shape : Shape) : Numbered Expr := do
  let mark ← Numbered.freshMark shape.range
  match ← shape.namedExprs with
  | [body, test, orelse] => return .conditional mark test body orelse
  | parts => return .invalid mark parts

def binary (shape : Shape) (kind : BinaryKind) : Numbered Expr := do
  let mark ← Numbered.freshMark shape.range
  let left ← shape.labelledExpr "left"
  let right ← shape.labelledExpr "right"
  return .binary mark kind left ((shape.labelledText? "operator").getD "") right

def unary (shape : Shape) : Numbered Expr := do
  let mark ← Numbered.freshMark shape.range
  let operand ← shape.labelledExpr "argument"
  return .unary mark ((shape.labelledText? "operator").getD "not") operand

def comparison (shape : Shape) : Numbered Expr := do
  let mark ← Numbered.freshMark shape.range
  return .compare mark (← shape.namedExprs) ((shape.labelled "operators").map (·.text))

def namedExpression (shape : Shape) : Numbered Expr := do
  let mark ← Numbered.freshMark shape.range
  let target ← shape.labelledIdentifier "name"
  return .named mark target (← shape.labelledExpr "value")

def starred (shape : Shape) (double : Bool) : Numbered Expr := do
  let mark ← Numbered.freshMark shape.range
  return .starred mark (← shape.firstNamedExpr) double

def awaited (shape : Shape) : Numbered Expr := do
  let mark ← Numbered.freshMark shape.range
  return .await mark (← shape.firstNamedExpr)

def yielded (shape : Shape) : Numbered Expr := do
  let mark ← Numbered.freshMark shape.range
  let value ←
    match shape.named with
    | [] => pure none
    | [only] => some <$> only.expr
    | _ => some <$> shape.collection .tuple
  return .yield mark value (shape.hasToken "from")

def genericType (shape : Shape) : Numbered Expr := do
  let mark ← Numbered.freshMark shape.range
  let base ←
    match shape.named.head? with
    | some base => base.expr
    | none => shape.unreadable
  let parameters :=
    (shape.named.filter (·.kind == "type_parameter")).flatMap fun list => list.shape.named
  return .subscript mark base (← parameters.mapM (·.expr))

def unionType (shape : Shape) : Numbered Expr := do
  let mark ← Numbered.freshMark shape.range
  match ← shape.namedExprs with
  | [left, right] => return .binary mark .arithmetic left "|" right
  | parts => return .invalid mark parts

def memberType (shape : Shape) : Numbered Expr := do
  let mark ← Numbered.freshMark shape.range
  match shape.named with
  | [object, attr] =>
    let value ← object.expr
    return .member mark value (← attr.shape.identifier)
  | _ => return .invalid mark (← shape.namedExprs)

def expr (shape : Shape) : Numbered Expr :=
  match shape.kind with
  | "identifier" | "keyword_identifier" => do return .name (← shape.identifier)
  | "parenthesized_expression" => shape.parenthesized
  | "attribute" => shape.member
  | "subscript" => shape.subscript
  | "slice" => shape.slice
  | "call" => shape.call
  | "string" | "concatenated_string" => shape.string
  | "integer" | "float" => shape.literal (LiteralText.numberKind shape.text)
  | "true" => shape.literal .true
  | "false" => shape.literal .false
  | "none" => shape.literal .none
  | "ellipsis" => shape.literal .ellipsis
  | "tuple" | "expression_list" | "pattern_list" | "tuple_pattern" => shape.collection .tuple
  | "list" | "list_pattern" => shape.collection .list
  | "set" => shape.collection .set
  | "dictionary" => shape.dictionary
  | "list_comprehension" => shape.comprehension .list
  | "set_comprehension" => shape.comprehension .set
  | "dictionary_comprehension" => shape.comprehension .dict
  | "generator_expression" => shape.comprehension .generator
  | "lambda" => shape.lambda
  | "conditional_expression" => shape.conditional
  | "boolean_operator" => shape.binary .logical
  | "binary_operator" => shape.binary .arithmetic
  | "unary_operator" | "not_operator" => shape.unary
  | "comparison_operator" => shape.comparison
  | "named_expression" => shape.namedExpression
  | "list_splat" | "list_splat_pattern" | "parenthesized_list_splat" => shape.starred false
  | "dictionary_splat" | "dictionary_splat_pattern" => shape.starred true
  | "await" => shape.awaited
  | "yield" => shape.yielded
  | "type" | "constrained_type" | "as_pattern" => shape.firstNamedExpr
  | "generic_type" => shape.genericType
  | "union_type" => shape.unionType
  | "member_type" => shape.memberType
  | "splat_type" => shape.starred ("**".isPrefixOf shape.text)
  | _ => shape.invalid

end PyStatic.Shape
