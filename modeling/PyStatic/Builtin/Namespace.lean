import PyStatic.Builtin.Catalogue
import PyStatic.Graph.BreadthFirst

/-!
Contract: what the catalogue of builtin names says of one name.
-/

namespace PyStatic.Builtin

def class? (name : String) : Option ClassEntry :=
  classes.find? (·.name == name)

def function? (name : String) : Option Routine :=
  functions.find? (·.name == name)

def isFunction (name : String) : Bool :=
  (function? name).isSome

def isConstant (name : String) : Bool :=
  constants.contains name

def isBuiltin (name : String) : Bool :=
  (class? name).isSome || isFunction name || isConstant name

def basesOf (name : String) : List String :=
  ((class? name).map (·.bases)).getD []

def methodsOf (name : String) : List Routine :=
  ((class? name).map (·.methods)).getD []

def ancestors (name : String) : List String :=
  match class? name with
  | some _ => BreadthFirst.sweep basesOf ((classes.flatMap (·.bases)).length + 1) [name] []
  | none => []

def members (name : String) : List String :=
  ((ancestors name).flatMap fun ancestor => (methodsOf ancestor).map (·.name)).eraseDups

def method? (className method : String) : Option Routine :=
  (ancestors className).findSome? fun ancestor =>
    (methodsOf ancestor).find? (·.name == method)

def category? (name : String) : Option String :=
  match name with
  | "str" => some "str"
  | "int" | "float" | "complex" | "bool" => some "number"
  | "list" => some "list"
  | "set" | "frozenset" => some "set"
  | "dict" => some "dict"
  | "tuple" => some "tuple"
  | _ => none

end PyStatic.Builtin
