import PyStatic.Scope.Tree
import PyStatic.Symbol.Hint

/-!
Contract: symbols, the things that names stand for.
-/

namespace PyStatic

abbrev SymbolId := Nat

inductive SymbolKind where
  | function
  | ofClass
  | other
  | ambiguous
  deriving DecidableEq, Repr

inductive UsageKind where
  | assignmentTarget
  | compoundAssignmentTarget
  | other
  | loopDeclaration
  | comprehensionDeclaration
  | exceptionInstance
  | withInstance
  | imported
  | functionDeclaration
  | classDeclaration
  | parameter
  | globalDeclaration
  | patternDeclaration
  deriving DecidableEq, Repr

def UsageKind.isBinding : UsageKind → Bool
  | other | globalDeclaration => false
  | _ => true

structure Usage where
  node : NodeId
  range : TextRange
  kind : UsageKind
  deriving DecidableEq, Repr

structure ParameterInfo where
  name : Option String
  kind : ParameterKind
  hasDefault : Bool
  positionalOnly : Bool
  keywordOnly : Bool
  declaredType : Option TypeHint
  deriving DecidableEq

structure FunctionInfo where
  parameters : List ParameterInfo
  decorators : List String
  isAsync : Bool
  isInstanceMethod : Bool
  declaredReturnType : Option TypeHint
  definition : Option NodeId
  deriving DecidableEq

namespace FunctionInfo

def blank : FunctionInfo :=
  ⟨[], [], false, false, none, none⟩

def hasDecorators (info : FunctionInfo) : Bool :=
  !info.decorators.isEmpty

def isVariadic (info : FunctionInfo) : Bool :=
  info.parameters.any fun parameter => parameter.kind != .regular

def detached (info : FunctionInfo) : FunctionInfo :=
  { info with definition := none }

end FunctionInfo

/-- What is known of a class; an unresolved base is a direct one that is no known class. -/
structure ClassInfo where
  superClasses : List SymbolId
  members : List SymbolId
  hasUnresolvedBase : Bool
  metaclass : Option String
  hasDecorators : Bool
  definition : Option NodeId
  deriving DecidableEq

def ClassInfo.blank : ClassInfo :=
  ⟨[], [], false, none, false, none⟩

inductive SymbolData where
  | other (children : List SymbolId)
  | function (info : FunctionInfo)
  | ofClass (info : ClassInfo)
  | ambiguous (alternatives : List SymbolId)
  deriving DecidableEq

def SymbolData.kind : SymbolData → SymbolKind
  | other _ => .other
  | function _ => .function
  | ofClass _ => .ofClass
  | ambiguous _ => .ambiguous

structure Symbol where
  name : String
  fqn : Option String
  data : SymbolData
  scope : Option ScopeId
  isBuiltin : Bool
  usages : List Usage
  deriving DecidableEq

namespace Symbol

def fresh (name : String) (fqn : Option String) (data : SymbolData) (scope : Option ScopeId) :
    Symbol :=
  ⟨name, fqn, data, scope, false, []⟩

def builtin (name fqn : String) (data : SymbolData) : Symbol :=
  ⟨name, some fqn, data, none, true, []⟩

def kind (symbol : Symbol) : SymbolKind :=
  symbol.data.kind

def function? (symbol : Symbol) : Option FunctionInfo :=
  match symbol.data with
  | .function info => some info
  | _ => none

def class? (symbol : Symbol) : Option ClassInfo :=
  match symbol.data with
  | .ofClass info => some info
  | _ => none

def alternatives (symbol : Symbol) : List SymbolId :=
  match symbol.data with
  | .ambiguous alternatives => alternatives
  | _ => []

def children (symbol : Symbol) : List SymbolId :=
  match symbol.data with
  | .other children => children
  | _ => []

def bindings (symbol : Symbol) : List Usage :=
  symbol.usages.filter (·.kind.isBinding)

end Symbol

structure Reference where
  name : String
  node : NodeId
  range : TextRange
  scope : ScopeId
  deriving DecidableEq, Repr

end PyStatic
