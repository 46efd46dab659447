import PyStatic.Syntax.Reading.Shape

/-!
Contract: parameter lists and argument lists, read off concrete nodes.
-/

namespace PyStatic

namespace Shape

def parameterTarget (shape : Shape) : Numbered ParameterTarget :=
  match shape.kind with
  | "tuple_pattern" | "list_pattern" | "parenthesized_expression" => do
      return .tuple (← shape.named.mapM (·.target))
  | "list_splat_pattern" =>
    match shape.firstNamed? with
    | some inner => inner.target
    | none => pure (.tuple [])
  | _ => do return .name (← shape.identifier)

def parameterOf (shape : Shape) (binder : Reading) (hint default : Option Reading) :
    Numbered (Option Parameter) := do
  let mark ← Numbered.freshMark shape.range
  let (kind, inner) : ParameterKind × Option Reading :=
    match binder.kind with
    | "list_splat_pattern" => (.varArgs, binder.shape.firstNamed?)
    | "dictionary_splat_pattern" => (.kwArgs, binder.shape.firstNamed?)
    | _ => (.regular, some binder)
  match inner with
  | none => return none
  | some inner =>
    let target ← inner.target
    let hint ← Numbered.onSome (·.expr) hint
    let default ← Numbered.onSome (·.expr) default
    return some
      { mark, target, hint, default, kind, positionalOnly := false, keywordOnly := false }

def parameter? (shape : Shape) (self : Reading) : Numbered (Option Parameter) :=
  match shape.kind with
  | "identifier" | "tuple_pattern" | "list_pattern" | "list_splat_pattern"
  | "dictionary_splat_pattern" => shape.parameterOf self none none
  | "typed_parameter" =>
    match shape.firstNamed? with
    | some inner => shape.parameterOf inner (shape.labelled? "type") none
    | none => pure none
  | "default_parameter" | "typed_default_parameter" =>
    match shape.labelled? "name" with
    | some inner => shape.parameterOf inner (shape.labelled? "type") (shape.labelled? "value")
    | none => pure none
  | _ => pure none

end Shape

/-- Parameters before `/` are positional only, and those after `*` keyword only. -/
def Reading.parametersFrom (keywordOnly : Bool) (before : List Parameter) :
    List Reading → Numbered (List Parameter)
  | [] => pure before
  | child :: rest =>
    if child.kind == "positional_separator" then
      parametersFrom keywordOnly (before.map fun p => { p with positionalOnly := true }) rest
    else if child.kind == "keyword_separator" then
      parametersFrom true before rest
    else do
      match ← child.shape.parameter? child with
      | none => parametersFrom keywordOnly before rest
      | some parameter =>
        let parameter :=
          { parameter with keywordOnly := keywordOnly && parameter.kind == .regular }
        parametersFrom (keywordOnly || parameter.kind == .varArgs) (before ++ [parameter]) rest

namespace Shape

def parameters (shape : Shape) : Numbered (List Parameter) :=
  match shape.labelled? "parameters" with
  | some list => Reading.parametersFrom false [] list.shape.named
  | none => pure []

def argument (shape : Shape) (self : Reading) : Numbered Argument := do
  if shape.kind == "keyword_argument" then
    let keyword ← shape.labelledIdentifier "name"
    let value ← shape.labelledExpr "value"
    return ⟨some keyword, value⟩
  else
    return ⟨none, ← self.expr⟩

def arguments (shape : Shape) : Numbered (List Argument) :=
  shape.named.mapM fun child => child.shape.argument child

end Shape

end PyStatic
