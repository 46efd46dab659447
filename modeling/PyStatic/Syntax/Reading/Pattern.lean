import PyStatic.Syntax.Reading.Expr

/-!
Contract: the meaning of a concrete node as a match pattern.
-/

namespace PyStatic.Shape

def captureOrWildcard (shape : Shape) : Numbered Pattern :=
  if shape.text == "_" then pure (.wildcard shape.range)
  else do return .capture (← shape.identifier)

def memberChain (shape : Shape) (value : Expr) : List Reading → Numbered Expr
  | [] => pure value
  | part :: rest => do
      let mark ← Numbered.freshMark (shape.range.cover part.range)
      let attr ← part.shape.identifier
      memberChain shape (.member mark value attr) rest

def dottedExpr (shape : Shape) : Numbered Expr :=
  match shape.named with
  | [] => shape.unreadable
  | first :: rest => do
      let base ← first.shape.identifier
      shape.memberChain (.name base) rest

def aliasCapture (shape : Shape) : Numbered (List Pattern) :=
  match (shape.labelled? "alias").bind Reading.aliasTarget? with
  | some bound => do return [← bound.shape.captureOrWildcard]
  | none => pure []

end PyStatic.Shape

namespace PyStatic

def Reading.valueExpr (reading : Reading) : Numbered Expr :=
  if reading.kind == "dotted_name" then reading.shape.dottedExpr else reading.expr

def Shape.pattern (shape : Shape) (value : Numbered Expr) : Numbered Pattern :=
  match shape.kind with
  | "case_pattern" =>
    match shape.firstNamed? with
    | some inner => inner.pattern
    | none => pure (.wildcard shape.range)
  | "identifier" => shape.captureOrWildcard
  | "dotted_name" =>
    match shape.named with
    | [single] => single.shape.captureOrWildcard
    | _ => do return .value (← shape.dottedExpr)
  | "as_pattern" => do
      let inner ←
        match shape.firstNamed? with
        | some inner => do
            let pattern ← inner.pattern
            pure [pattern]
        | none => pure []
      return .group (inner ++ (← shape.aliasCapture))
  | "splat_pattern" | "list_splat_pattern" | "dictionary_splat_pattern" =>
    match shape.firstNamed? with
    | some inner => inner.shape.captureOrWildcard
    | none => pure (.wildcard shape.range)
  | "class_pattern" => do
      let subject ←
        match shape.named.head? with
        | some subject => subject.valueExpr
        | none => shape.unreadable
      return .ofClass subject (← shape.named.tail.mapM (·.pattern))
  | "keyword_pattern" => do return .group (← shape.named.tail.mapM (·.pattern))
  | "dict_pattern" => do
      let items ← shape.named.mapM fun child => do
        if child.info.label == some "key" then
          return Pattern.value (← child.valueExpr)
        else
          child.pattern
      return .group items
  | "list_pattern" | "tuple_pattern" | "union_pattern" | "pattern_list" => do
      return .group (← shape.named.mapM (·.pattern))
  | _ => do return .value (← value)

end PyStatic
