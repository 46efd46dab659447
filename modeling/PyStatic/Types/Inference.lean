import PyStatic.Types.Walk

/-!
Contract: the type of every expression of a module.

The body of the module is inferred first. What its final walk comes by, the bodies of functions and
classes, waits on a stack, and each of them adds in turn what stands in it.
-/

namespace PyStatic

abbrev TypeTable := Std.ExtTreeMap NodeId ValueType

def TypeTable.addAll (table : TypeTable) (notes : List TypeNote) : TypeTable :=
  notes.foldl (fun table (node, type) => table.insert node type) table

def Stmt.soleTarget? : Stmt → Option Identifier
  | .simple _ (.assign [target] _) => target.name?
  | .simple _ (.annotatedAssign target _ (some _)) => target.name?
  | _ => none

def Stmt.inferenceBody? : Stmt → Option InferenceBody
  | .functionDef head body => some ⟨head.mark.id, body, true⟩
  | .classDef head body => some ⟨head.mark.id, body, false⟩
  | _ => none

def Module.inferenceBodies (module' : Module) : List InferenceBody :=
  ⟨module'.mark.id, module'.body, false⟩ :: module'.allStmts.filterMap (·.inferenceBody?)

namespace Model

/-- Every binding of the variable is an assignment of its own. -/
def isTracked (model : Model) (suite : List Stmt) (id : SymbolId) : Bool :=
  let targets := (Stmt.ownStmts suite).filterMap fun stmt => stmt.soleTarget?.map (·.id)
  (model.table.get? id).any fun symbol =>
    symbol.kind == .other && !symbol.isBuiltin && !symbol.bindings.isEmpty &&
      symbol.bindings.all fun usage =>
        usage.kind == .assignmentTarget && targets.contains usage.node

def trackedVariables (model : Model) (scope : ScopeId) (suite : List Stmt) : List SymbolId :=
  (model.table.inScope scope).filter (model.isTracked suite)

def addParameterType (model : Model) (scope : ScopeId)
    (types : Std.ExtTreeMap SymbolId ValueType) (parameter : ParameterInfo) :
    Std.ExtTreeMap SymbolId ValueType :=
  match parameter.name, parameter.declaredType with
  | some name, some hint =>
    match model.table.lookup? scope name with
    | some id =>
      if (model.table.get? id).any fun symbol => symbol.bindings.all (·.kind == .parameter) then
        types.insert id (model.declaredType hint)
      else types
    | none => types
  | _, _ => types

def parameterTypes (model : Model) (scope : ScopeId) (function : NodeId) :
    Std.ExtTreeMap SymbolId ValueType :=
  match ((model.definition? function).bind model.table.get?).bind (·.function?) with
  | some info => info.parameters.foldl (model.addParameterType scope) ∅
  | none => ∅

def bodyContext (model : Model) (scope : ScopeId) (body : InferenceBody) (isFinal : Bool) :
    BodyContext where
  model := model
  tracked := model.trackedVariables scope body.suite
  parameters := if body.isFunction then model.parameterTypes scope body.node else ∅
  isFinal := isFinal
  maxLoopRounds := model.settings.maxLoopRounds

/-- The types noted in a body, and the bodies of the definitions that its walks come by. -/
def inferBody (model : Model) (body : InferenceBody) : List TypeNote × List InferenceBody :=
  match model.ownedScope? body.node with
  | none => ([], [])
  | some scope =>
    let first := Stmt.walkAll (model.bodyContext scope body false) body.suite (some ∅) ∅
    let final := Stmt.walkAll (model.bodyContext scope body true) body.suite (some ∅) first.headers
    (final.notes, first.bodies ++ final.bodies)

/-- The body on top of the stack is inferred next, and the bodies found in it are put there. -/
def inferStack (model : Model) : Nat → List InferenceBody → List TypeNote
  | count + 1, body :: rest =>
    let (notes, found) := model.inferBody body
    notes ++ model.inferStack count (found.reverse ++ rest)
  | _, _ => []

/-- There are as many bodies to infer as definitions in the module, and its own. -/
def inferTypes (model : Model) (module' : Module) : TypeTable :=
  TypeTable.addAll ∅ <|
    model.inferStack module'.inferenceBodies.length [⟨module'.mark.id, module'.body, false⟩]

end Model

def TypeTable.typeOf (table : TypeTable) (node : NodeId) : ValueType :=
  table.getD node .any

end PyStatic
