import PyStatic.Syntax.Expr

/-!
Contract: the scopes of a module and how they nest.

Modules, class bodies, functions, lambdas and comprehensions open a scope; suites do not. A scope is
named by its place in the order of opening, so a scope comes after the one around it.
-/

namespace PyStatic

abbrev ScopeId := Nat

inductive ScopeKind where
  | topLevel
  | classBody
  | function
  | lambda
  | comprehension
  deriving DecidableEq, Repr

def ScopeKind.isFunctionLike : ScopeKind → Bool
  | function | lambda => true
  | _ => false

def ScopeKind.sharesNamespace : ScopeKind → Bool
  | lambda | comprehension => true
  | _ => false

/-- A scope, opened by `node`; `path` is the dotted name of what it belongs to. -/
structure Scope where
  kind : ScopeKind
  parent : Option ScopeId
  node : NodeId
  range : TextRange
  path : String
  globalNames : List String
  nonlocalNames : List String
  receiver : Option String
  usesDynamicNamespace : Bool

namespace Scope

def isGlobal (scope : Scope) (name : String) : Bool :=
  scope.globalNames.contains name

def isNonlocal (scope : Scope) (name : String) : Bool :=
  scope.nonlocalNames.contains name

end Scope

structure ScopeTree where
  scopes : Array Scope

namespace ScopeTree

def empty : ScopeTree :=
  ⟨#[]⟩

def size (tree : ScopeTree) : Nat :=
  tree.scopes.size

def get? (tree : ScopeTree) (id : ScopeId) : Option Scope :=
  tree.scopes[id]?

def push (tree : ScopeTree) (scope : Scope) : ScopeTree :=
  ⟨tree.scopes.push scope⟩

def modify (tree : ScopeTree) (id : ScopeId) (change : Scope → Scope) : ScopeTree :=
  ⟨tree.scopes.modify id change⟩

def ids (tree : ScopeTree) : List ScopeId :=
  List.range tree.size

def root? (tree : ScopeTree) : Option ScopeId :=
  if tree.size = 0 then none else some 0

def kind? (tree : ScopeTree) (id : ScopeId) : Option ScopeKind :=
  (tree.get? id).map (·.kind)

def parent? (tree : ScopeTree) (id : ScopeId) : Option ScopeId :=
  (tree.get? id).bind (·.parent)

def pathOf (tree : ScopeTree) (id : ScopeId) : String :=
  ((tree.get? id).map (·.path)).getD ""

def isGlobal (tree : ScopeTree) (id : ScopeId) (name : String) : Bool :=
  (tree.get? id).any (·.isGlobal name)

def isNonlocal (tree : ScopeTree) (id : ScopeId) (name : String) : Bool :=
  (tree.get? id).any (·.isNonlocal name)

def children (tree : ScopeTree) (id : ScopeId) : List ScopeId :=
  tree.ids.filter fun inner => tree.parent? inner == some id

def ownedBy? (tree : ScopeTree) (node : NodeId) : Option ScopeId :=
  tree.ids.reverse.find? fun id => (tree.get? id).any fun scope => scope.node == node

def outward (tree : ScopeTree) : Nat → ScopeId → List ScopeId
  | 0, _ => []
  | count + 1, id =>
    match tree.get? id with
    | none => []
    | some scope =>
      id :: match scope.parent with
        | none => []
        | some parent => tree.outward count parent

/-- A scope comes after the one around it, so its place bounds their number. -/
def ancestors (tree : ScopeTree) (id : ScopeId) : List ScopeId :=
  tree.outward (id + 1) id

def isWithin (tree : ScopeTree) (inner outer : ScopeId) : Bool :=
  (tree.ancestors inner).contains outer

def enclosingFunction? (tree : ScopeTree) (id : ScopeId) : Option ScopeId :=
  (tree.ancestors id).tail.find? fun outer => (tree.kind? outer).any (·.isFunctionLike)

/-- Comprehensions are transparent to assignment expressions. -/
def assignmentScope (tree : ScopeTree) (id : ScopeId) : ScopeId :=
  ((tree.ancestors id).find? fun outer => tree.kind? outer != some .comprehension).getD id

def namespaceScopes (tree : ScopeTree) (id : ScopeId) : List ScopeId :=
  let shares (outer : ScopeId) : Bool := (tree.kind? outer).any (·.sharesNamespace)
  let ancestors := tree.ancestors id
  ancestors.takeWhile shares ++ (ancestors.dropWhile shares).take 1

/-- Where a binding lands that is made in scope `id`. -/
def bindingScope (tree : ScopeTree) (id : ScopeId) (name : String) : ScopeId :=
  if tree.isGlobal id name then 0
  else if tree.isNonlocal id name then (tree.enclosingFunction? id).getD id
  else id

end ScopeTree

end PyStatic
