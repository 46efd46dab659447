import PyStatic.Symbol.Table

/-!
Contract: ambiguous symbols, which stand for one of several bindings of a name.
-/

namespace PyStatic

inductive AmbiguityError where
  | tooFewAlternatives (count : Nat)
  | incompatibleAlternatives (first second : String)
  deriving DecidableEq, Repr

def AmbiguityError.message : AmbiguityError → String
  | tooFewAlternatives count =>
    "an ambiguous symbol needs at least two alternatives, got " ++ toString count
  | incompatibleAlternatives first second =>
    "alternatives '" ++ first ++ "' and '" ++ second ++
      "' share neither a name nor a fully qualified name"

namespace SymbolTable

def leaves (table : SymbolTable) : Nat → SymbolId → List SymbolId
  | 0, id => [id]
  | depth + 1, id =>
    match table.get? id with
    | none => [id]
    | some symbol =>
      match symbol.data with
      | .ambiguous alternatives => alternatives.flatMap (table.leaves depth)
      | _ => [id]

/-- Alternatives are older than their symbol, so the size bounds the depth. -/
def flattened (table : SymbolTable) (ids : List SymbolId) : List SymbolId :=
  (ids.flatMap (table.leaves table.size)).eraseDups

def commonName? (table : SymbolTable) : List SymbolId → Option String
  | [] => none
  | first :: rest =>
    let name := table.nameOf first
    if rest.all fun id => table.nameOf id == name then some name else none

def commonFqn? (table : SymbolTable) : List SymbolId → Option String
  | [] => none
  | first :: rest =>
    (table.fqnOf? first).filter fun fqn => rest.all fun id => table.fqnOf? id == some fqn

/-- All must share a name, or else a fully qualified name. -/
def ambiguous? (table : SymbolTable) (ids : List SymbolId) : Except AmbiguityError Symbol :=
  match table.flattened ids with
  | [] => .error (.tooFewAlternatives 0)
  | [_] => .error (.tooFewAlternatives 1)
  | first :: second :: rest =>
    let all := first :: second :: rest
    let symbol (name : String) (fqn : Option String) : Symbol :=
      .fresh name fqn (.ambiguous all) ((table.get? first).bind (·.scope))
    match table.commonName? all, table.commonFqn? all with
    | some name, fqn => .ok (symbol name fqn)
    | none, some fqn => .ok (symbol "" (some fqn))
    | none, none =>
      let firstName := table.nameOf first
      let names := (second :: rest).map table.nameOf
      .error (.incompatibleAlternatives firstName ((names.find? (· != firstName)).getD ""))

def pushAmbiguous (table : SymbolTable) (ids : List SymbolId) :
    Except AmbiguityError (SymbolTable × SymbolId) :=
  (table.ambiguous? ids).map fun symbol => (table.push symbol, table.size)

def unite (table : SymbolTable) (ids : List SymbolId) : SymbolTable × Option SymbolId :=
  match table.pushAmbiguous ids with
  | .ok (table, id) => (table, some id)
  | .error _ => (table, ids.getLast?)

end SymbolTable

end PyStatic
