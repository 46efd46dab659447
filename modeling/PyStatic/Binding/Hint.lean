import PyStatic.Binding.Resolution
import PyStatic.Builtin.Namespace

/-!
Contract: what type hints mean.
-/

namespace PyStatic

def hintAlias? (fqn : String) : Option String :=
  match fqn with
  | "typing.Text" => some "str"
  | "typing.List" => some "list"
  | "typing.Dict" => some "dict"
  | "typing.Set" => some "set"
  | "typing.FrozenSet" => some "frozenset"
  | "typing.Tuple" => some "tuple"
  | "typing.Type" => some "type"
  | _ => (Builtin.class? fqn).map (·.name)

namespace Resolution

def symbolHint (resolution : Resolution) (id : SymbolId) : TypeHint :=
  match resolution.table.get? id with
  | none => .unresolved ""
  | some symbol =>
    match symbol.class?, symbol.fqn with
    | some _, some fqn => .ofClass symbol.name fqn []
    | _, fqn => .unresolved (fqn.getD symbol.name)

def aliasHint (resolution : Resolution) (expr : Expr) : TypeHint :=
  match resolution.fqnOf? expr with
  | some fqn =>
    match hintAlias? fqn with
    | some builtin => .builtin builtin
    | none => .unresolved fqn
  | none => .unresolved expr.dottedText

def nameHint (resolution : Resolution) (expr : Expr) : TypeHint :=
  match (resolution.symbolOf? expr).bind fun id => (resolution.table.get? id).map (id, ·) with
  | none => resolution.aliasHint expr
  | some (id, symbol) =>
    match symbol.data with
    | .ofClass _ =>
      if symbol.fqn.isSome then resolution.symbolHint id else resolution.aliasHint expr
    | .ambiguous alternatives =>
      .ambiguous symbol.name (alternatives.map resolution.symbolHint)
    | _ => resolution.aliasHint expr

def subscriptHint (base : TypeHint) (fqn : Option String) (args : List TypeHint) : TypeHint :=
  if fqn = some "typing.Optional" then .unionOf (args ++ [.builtin "NoneType"])
  else if fqn = some "typing.Union" then .unionOf args
  else
    match base with
    | .ofClass name fqn _ => .ofClass name fqn args
    | other => other

mutual

def hint (resolution : Resolution) : Expr → TypeHint
  | .literal _ .none _ _ => .builtin "NoneType"
  | .binary _ .arithmetic left op right =>
    if op = "|" then .unionOf [resolution.hint left, resolution.hint right] else .unresolved ""
  | .subscript _ value slice =>
    subscriptHint (resolution.hint value) (resolution.fqnOf? value)
      (resolution.argumentHints slice)
  | .name identifier => resolution.nameHint (.name identifier)
  | .member mark value attr => resolution.nameHint (.member mark value attr)
  | _ => .unresolved ""

def argumentHints (resolution : Resolution) : List Expr → List TypeHint
  | [.collection _ .tuple elements] => resolution.hints elements
  | slice => resolution.hints slice

def hints (resolution : Resolution) : List Expr → List TypeHint
  | [] => []
  | expr :: rest => resolution.hint expr :: resolution.hints rest

end

end Resolution

end PyStatic
