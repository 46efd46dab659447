import PyStatic.Symbol.Basic

/-!
Contract: symbols as other modules see them.

An export stands on its own: it has no usages, and a class names its superclasses instead of linking
to them.
-/

namespace PyStatic

inductive BaseLink where
  | toClass (fqn : String)
  | toOther (name : String) (fqn : Option String)
  deriving DecidableEq, Repr

structure ClassExport where
  bases : List BaseLink
  hasUnresolvedBase : Bool
  metaclass : Option String
  hasDecorators : Bool
  deriving DecidableEq, Repr

inductive Export where
  | other (name : String) (fqn : Option String)
  | function (name : String) (fqn : Option String) (info : FunctionInfo)
  | ofClass (name : String) (fqn : Option String) (info : ClassExport) (members : List Export)
  | ambiguous (name : String) (fqn : Option String) (alternatives : List Export)
  deriving Inhabited

namespace Export

def name : Export → String
  | other name _ => name
  | function name _ _ => name
  | ofClass name _ _ _ => name
  | ambiguous name _ _ => name

def fqn : Export → Option String
  | other _ fqn => fqn
  | function _ fqn _ => fqn
  | ofClass _ fqn _ _ => fqn
  | ambiguous _ fqn _ => fqn

def kind : Export → SymbolKind
  | other _ _ => .other
  | function _ _ _ => .function
  | ofClass _ _ _ _ => .ofClass
  | ambiguous _ _ _ => .ambiguous

def members : Export → List Export
  | ofClass _ _ _ members => members
  | _ => []

def member? (exported : Export) (name : String) : Option Export :=
  exported.members.find? (·.name == name)

mutual

def weight : Export → Nat
  | other _ _ => 1
  | function _ _ _ => 1
  | ofClass _ _ info members => 1 + info.bases.length + weightOfAll members
  | ambiguous _ _ alternatives => 1 + weightOfAll alternatives

def weightOfAll : List Export → Nat
  | [] => 0
  | exported :: rest => weight exported + weightOfAll rest

end

end Export

end PyStatic
