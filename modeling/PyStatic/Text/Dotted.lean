import PyStatic.Text.Split

/-!
Contract: dotted names such as `package.module.member`.
-/

namespace PyStatic.Dotted

def join (qualifier name : String) : String :=
  if qualifier.isEmpty then name else qualifier ++ "." ++ name

def ofParts (parts : List String) : String :=
  String.intercalate "." parts

def parts (name : String) : List String :=
  Text.split '.' name

def lastPart (name : String) : String :=
  (parts name).getLast?.getD name

def isBelow (name qualifier : String) : Bool :=
  (qualifier.toList ++ ['.']).isPrefixOf name.toList

end PyStatic.Dotted
