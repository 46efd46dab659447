import PyStatic.Symbol.Basic
import PyStatic.Syntax.Outline
import Std.Data.ExtTreeMap

/-!
Contract: what a module binds, reads and declares, noted in source order.

A name is visible in its whole scope, whichever line binds it, so nothing is resolved before the
whole module is surveyed.
-/

namespace PyStatic

inductive BindingOrigin where
  | functionDef (node : NodeId)
  | classDef (node : NodeId)
  | importedName (fqn : String)
  | importedModule (name : String) (submodules : List String)
  | plain
  deriving DecidableEq, Repr

/-- A binding, which lands in scope `target`. -/
structure Binding where
  target : ScopeId
  name : String
  node : NodeId
  range : TextRange
  usage : UsageKind
  origin : BindingOrigin
  deriving DecidableEq, Repr

def Binding.toUsage (binding : Binding) : Usage :=
  ⟨binding.node, binding.range, binding.usage⟩

structure AttributeRead where
  base : NodeId
  attr : Identifier
  deriving DecidableEq, Repr

structure InstanceAttribute where
  classScope : ScopeId
  attr : Identifier
  deriving DecidableEq, Repr

structure Declaration where
  name : Identifier
  scope : ScopeId
  isGlobal : Bool
  deriving DecidableEq, Repr

structure FunctionSite where
  head : FunctionHead
  enclosing : ScopeId

structure ClassSite where
  head : ClassHead
  body : ScopeId

structure Survey where
  scopes : ScopeTree
  bindings : List Binding
  reads : List Reference
  attributeReads : List AttributeRead
  instanceAttributes : List InstanceAttribute
  declarations : List Declaration
  functions : List FunctionSite
  classes : List ClassSite
  nodeScopes : Std.ExtTreeMap NodeId ScopeId
  hasUnresolvedWildcard : Bool

namespace Survey

def empty : Survey where
  scopes := .empty
  bindings := []
  reads := []
  attributeReads := []
  instanceAttributes := []
  declarations := []
  functions := []
  classes := []
  nodeScopes := ∅
  hasUnresolvedWildcard := false

def noteNode (scope : ScopeId) (node : NodeId) (survey : Survey) : Survey :=
  { survey with nodeScopes := survey.nodeScopes.insert node scope }

def addRead (scope : ScopeId) (name : Identifier) (survey : Survey) : Survey :=
  let survey := survey.noteNode scope name.id
  { survey with reads := survey.reads ++ [⟨name.text, name.id, name.range, scope⟩] }

def addBinding (scope : ScopeId) (usage : UsageKind) (origin : BindingOrigin) (name : Identifier)
    (survey : Survey) : Survey :=
  let target := survey.scopes.bindingScope scope name.text
  let survey := survey.noteNode scope name.id
  { survey with bindings := survey.bindings ++
    [⟨target, name.text, name.id, name.range, usage, origin⟩] }

def addBindings (scope : ScopeId) (usage : UsageKind) (names : List Identifier)
    (survey : Survey) : Survey :=
  names.foldl (fun survey name => survey.addBinding scope usage .plain name) survey

def addAttributeRead (value : Expr) (attr : Identifier) (survey : Survey) : Survey :=
  match value with
  | .name base =>
    { survey with attributeReads := survey.attributeReads ++ [⟨base.id, attr⟩] }
  | .member _ _ base =>
    { survey with attributeReads := survey.attributeReads ++ [⟨base.id, attr⟩] }
  | _ => survey

def addInstanceAttribute (scope : ScopeId) (value : Expr) (attr : Identifier) (survey : Survey) :
    Survey :=
  match survey.scopes.get? scope, value.name? with
  | some method, some base =>
    match method.receiver, method.parent with
    | some receiver, some classScope =>
      if base.text == receiver then
        { survey with
          instanceAttributes := survey.instanceAttributes ++ [⟨classScope, attr⟩] }
      else survey
    | _, _ => survey
  | _, _ => survey

def addDeclarations (scope : ScopeId) (isGlobal : Bool) (names : List Identifier)
    (survey : Survey) : Survey :=
  let survey := names.foldl (fun survey name => survey.noteNode scope name.id) survey
  { survey with
    declarations := survey.declarations ++ names.map fun name => ⟨name, scope, isGlobal⟩ }

def markDynamicNamespace (scope : ScopeId) (survey : Survey) : Survey :=
  let mark (tree : ScopeTree) (id : ScopeId) : ScopeTree :=
    tree.modify id fun scope => { scope with usesDynamicNamespace := true }
  { survey with scopes := (survey.scopes.namespaceScopes scope).foldl mark survey.scopes }

def declaredGlobal (body : List Stmt) : List String :=
  (Stmt.ownStmts body).flatMap fun stmt =>
    match stmt with
    | .simple _ (.globalNames names) => names.map (·.text)
    | _ => []

def declaredNonlocal (body : List Stmt) : List String :=
  (Stmt.ownStmts body).flatMap fun stmt =>
    match stmt with
    | .simple _ (.nonlocalNames names) => names.map (·.text)
    | _ => []

def nextScope (survey : Survey) : ScopeId :=
  survey.scopes.size

/-- Nonlocal names count only where a function around the scope could bind them. -/
def openScope (kind : ScopeKind) (parent : Option ScopeId) (mark : Mark) (name : Option String)
    (body : List Stmt) (receiver : Option String) (survey : Survey) : Survey :=
  let tree := survey.scopes
  let outerPath := (parent.map tree.pathOf).getD ""
  let outer := (parent.map tree.ancestors).getD []
  let closesOver := outer.any fun id => (tree.kind? id).any (·.isFunctionLike)
  { survey with scopes := tree.push {
      kind
      parent
      node := mark.id
      range := mark.range
      path := match name with
        | some name => Dotted.join outerPath name
        | none => outerPath
      globalNames := declaredGlobal body
      nonlocalNames := if closesOver then declaredNonlocal body else []
      receiver
      usesDynamicNamespace := false } }

end Survey

end PyStatic
