import PyStatic.Types.Known
import PyStatic.Types.State
import PyStatic.Types.Visits

/-!
Contract: the types of expressions in a state.

A variable whose every binding is an assignment of its own is tracked: a read has the type it was
assigned last. Evaluation has no type for what depends on a tracked variable that is not assigned,
unless the context takes such variables for anything.
-/

namespace PyStatic

structure BodyContext where
  model : Model
  tracked : List SymbolId
  parameters : Std.ExtTreeMap SymbolId ValueType
  isFinal : Bool
  maxLoopRounds : Nat

abbrev TypeNote := NodeId × ValueType

namespace BodyContext

def readType (context : BodyContext) (state : TypeState) (name : Identifier) : Option ValueType :=
  match context.model.symbolAt? name.id with
  | none => some .any
  | some symbol =>
    if context.tracked.contains symbol then
      match state[symbol]? with
      | some type => some type
      | none => if context.isFinal then some .any else none
    else some (context.parameters.getD symbol .any)

def eitherType : Option ValueType → Option ValueType → Option ValueType
  | some left, some right => some (.unionOf [left, right])
  | some type, none => some type
  | none, type => type

def literalType (context : BodyContext) : LiteralKind → ValueType
  | .int => context.model.instanceType "int"
  | .float => context.model.instanceType "float"
  | .complex => context.model.instanceType "complex"
  | .str | .fString => context.model.instanceType "str"
  | .bytes => context.model.instanceType "bytes"
  | .true | .false => context.model.instanceType "bool"
  | .none => context.model.instanceType "NoneType"
  | .ellipsis => .any

def collectionType (context : BodyContext) : CollectionShape → ValueType
  | .tuple => context.model.instanceType "tuple"
  | .list => context.model.instanceType "list"
  | .set => context.model.instanceType "set"

def comprehensionType (context : BodyContext) : ComprehensionKind → ValueType
  | .list => context.model.instanceType "list"
  | .set => context.model.instanceType "set"
  | .dict => context.model.instanceType "dict"
  | .generator => .any

/-- Only the sum of two integers or two strings is known. -/
def arithmeticType (op : String) (left right : ValueType) : ValueType :=
  match left.class?, right.class? with
  | some leftClass, some rightClass =>
    if op == "+" && leftClass.same rightClass &&
        (leftClass.fqn == "int" || leftClass.fqn == "str") then left
    else .any
  | _, _ => .any

def unaryType (context : BodyContext) (op : String) (operand : ValueType) : ValueType :=
  if op == "not" then context.model.instanceType "bool"
  else
    match operand.class? with
    | some summary => if ["int", "float", "complex"].contains summary.fqn then operand else .any
    | none => .any

def callType (context : BodyContext) (func : Expr) (receiver : Option ValueType) : ValueType :=
  let model := context.model
  match func with
  | .name name => ((model.symbolAt? name.id).map model.callResult).getD .any
  | .member _ _ attr =>
    match model.symbolAt? attr.id with
    | some symbol => model.callResult symbol
    | none =>
      match receiver.bind (·.class?) with
      | some summary => model.methodResult summary attr.text
      | none => .any
  | .subscript _ (.name name) _ =>
    match model.symbolAt? name.id with
    | some symbol =>
      if (model.table.get? symbol).any (·.kind == .ofClass) then model.callResult symbol
      else .any
    | none => .any
  | _ => .any

def eval (context : BodyContext) (state : TypeState) : Expr → Option ValueType
  | .name name => context.readType state name
  | .literal _ kind _ _ => some (context.literalType kind)
  | .collection _ shape _ => some (context.collectionType shape)
  | .dict _ _ => some (context.model.instanceType "dict")
  | .comprehension _ kind _ _ _ => some (context.comprehensionType kind)
  | .conditional _ _ body orelse =>
    eitherType (context.eval state body) (context.eval state orelse)
  | .binary _ .logical left _ right =>
    eitherType (context.eval state left) (context.eval state right)
  | .binary _ .arithmetic left op right =>
    match context.eval state left, context.eval state right with
    | some left, some right => some (arithmeticType op left right)
    | _, _ => none
  | .unary _ op operand => (context.eval state operand).map (context.unaryType op)
  | .named _ _ value => context.eval state value
  | .call _ (.member mark value attr) _ =>
    some (context.callType (.member mark value attr) (context.eval state value))
  | .call _ func _ => some (context.callType func none)
  | .slice _ _ => some (context.model.instanceType "slice")
  | .member _ _ _ | .subscript _ _ _ | .lambda _ _ _ | .compare _ _ _ | .starred _ _ _
  | .await _ _ | .yield _ _ _ | .invalid _ _ => some .any

def noted (context : BodyContext) (state : TypeState) (expr : Expr) : ValueType :=
  (context.eval state expr).getD .any

end BodyContext

namespace TypeVisit

def type (visit : TypeVisit) (context : BodyContext) (state : TypeState) : ValueType :=
  match visit.expr with
  | some expr => context.noted state expr
  | none => .any

def note (context : BodyContext) (state : TypeState) (visit : TypeVisit) : TypeNote :=
  (visit.node, visit.type context state)

end TypeVisit

end PyStatic
