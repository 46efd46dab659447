import PyStatic.Binding.Model
import PyStatic.Types.ValueType

/-!
Contract: the types that a module's symbols and hints stand for.
-/

namespace PyStatic.Model

def classesNamed (model : Model) (fqn : String) : List SymbolId :=
  model.table.ids.filter fun id =>
    (model.table.get? id).any fun symbol => symbol.kind == .ofClass && symbol.fqn == some fqn

def nthClass? (model : Model) (fqn : String) (number : Nat) : Option ClassSummary :=
  let named := model.classesNamed fqn
  match named[number]? <|> named.head? with
  | some id => ClassSummary.ofSymbol? model.table id
  | none => ClassSummary.builtin? fqn

def instanceType (model : Model) (fqn : String) : ValueType :=
  match model.nthClass? fqn 0 with
  | some summary => .instanceOf summary
  | none => .any

def isUnresolved : TypeHint → Bool
  | .unresolved _ => true
  | _ => false

mutual

/-- A union with an unknown branch declares nothing. -/
def declared? (model : Model) : TypeHint → Option DeclaredType
  | .ofClass name fqn args => some ⟨name, model.nthClass? fqn 0, model.declaredArgs args, []⟩
  | .union alternatives =>
    if alternatives.any isUnresolved then none
    else
      match model.declaredAll? alternatives with
      | some alternatives => some ⟨DeclaredType.unionName, none, [], alternatives⟩
      | none => none
  | .ambiguous name alternatives =>
    some ⟨name, none, [], model.declaredMeanings [] alternatives⟩
  | .unresolved text => if text.isEmpty then none else some ⟨text, none, [], []⟩

def declaredArgs (model : Model) : List TypeHint → List DeclaredType
  | [] => []
  | hint :: rest => (model.declared? hint).toList ++ model.declaredArgs rest

def declaredAll? (model : Model) : List TypeHint → Option (List DeclaredType)
  | [] => some []
  | hint :: rest =>
    match model.declared? hint, model.declaredAll? rest with
    | some declared, some others => some (declared :: others)
    | _, _ => none

/-- The second meaning with one class name is the second class of that name. -/
def declaredMeanings (model : Model) (met : List String) : List TypeHint → List DeclaredType
  | [] => []
  | .ofClass name fqn args :: rest =>
    ⟨name, model.nthClass? fqn (met.count fqn), model.declaredArgs args, []⟩ ::
      model.declaredMeanings (fqn :: met) rest
  | .union alternatives :: rest =>
    (model.declared? (.union alternatives)).toList ++ model.declaredMeanings met rest
  | .ambiguous name alternatives :: rest =>
    (model.declared? (.ambiguous name alternatives)).toList ++ model.declaredMeanings met rest
  | .unresolved text :: rest =>
    (model.declared? (.unresolved text)).toList ++ model.declaredMeanings met rest

end

def declaredType (model : Model) (hint : TypeHint) : ValueType :=
  match model.declared? hint with
  | some declared => .declared declared
  | none => .any

/-- A builtin function says what it returns, any other only claims it. -/
def functionResult (model : Model) (isBuiltin : Bool) (info : FunctionInfo) : ValueType :=
  match info.declaredReturnType, isBuiltin with
  | some (.ofClass _ fqn _), true => model.instanceType fqn
  | some hint, false => model.declaredType hint
  | _, _ => .any

def callResultWithin (model : Model) : Nat → SymbolId → ValueType
  | 0, _ => .any
  | depth + 1, id =>
    match model.table.get? id with
    | none => .any
    | some symbol =>
      match symbol.data with
      | .other _ => .any
      | .function info => model.functionResult symbol.isBuiltin info
      | .ofClass _ =>
        match ClassSummary.ofSymbol? model.table id with
        | some summary => .instanceOf summary
        | none => .any
      | .ambiguous alternatives =>
        .unionOf (alternatives.map (model.callResultWithin depth))

def callResult (model : Model) (id : SymbolId) : ValueType :=
  model.callResultWithin model.table.size id

def methodResult (model : Model) (receiver : ClassSummary) (method : String) : ValueType :=
  let catalogued : ValueType :=
    match (Builtin.method? receiver.fqn method).bind (·.returns) with
    | some returns => model.instanceType returns
    | none => .any
  match (model.classesNamed receiver.fqn).head? with
  | none => catalogued
  | some id =>
    if (model.table.get? id).any (·.isBuiltin) then catalogued
    else
      match model.table.member? id method with
      | some member => model.callResult member
      | none => .any

end PyStatic.Model
