import PyStatic.Syntax.Reading.Shape

/-!
Contract: import statements, read off concrete nodes.
-/

namespace PyStatic.Shape

def dottedName (shape : Shape) : Numbered DottedName := do
  if shape.kind == "dotted_name" then
    return ⟨shape.range, ← shape.named.mapM (·.shape.identifier)⟩
  else
    return ⟨shape.range, [← shape.identifier]⟩

def importAlias (shape : Shape) : Numbered Alias := do
  let mark ← Numbered.freshMark shape.range
  if shape.kind == "aliased_import" then
    let name ←
      match shape.labelled? "name" with
      | some name => name.shape.dottedName
      | none => pure ⟨shape.range, []⟩
    return ⟨mark, name, ← Numbered.onSome (·.shape.identifier) (shape.labelled? "alias")⟩
  else
    return ⟨mark, ← shape.dottedName, none⟩

def importAliases (shape : Shape) : Numbered (List Alias) :=
  (shape.labelled "name").mapM (·.shape.importAlias)

def relativeLevel (shape : Shape) : Nat :=
  match shape.named.find? (·.kind == "import_prefix") with
  | some dots => dots.text.toList.count '.'
  | none => 0

def importedModule (shape : Shape) : Numbered (Option DottedName × Nat) := do
  if shape.kind == "future_import_statement" then
    let mark ← Numbered.freshMark shape.range
    return (some ⟨shape.range, [⟨mark, "__future__"⟩]⟩, 0)
  else
    match shape.labelled? "module_name" with
    | some name =>
      if name.kind == "relative_import" then
        let dotted := name.shape.named.find? (·.kind == "dotted_name")
        return (← Numbered.onSome (·.shape.dottedName) dotted, name.shape.relativeLevel)
      else
        return (some (← name.shape.dottedName), 0)
    | none => return (none, 0)

def fromImport (shape : Shape) : Numbered Stmt := do
  let mark ← Numbered.freshMark shape.range
  let (target, level) ← shape.importedModule
  let names ← shape.importAliases
  let isWildcard := shape.named.any (·.kind == "wildcard_import")
  return .simple mark (.fromImport { target, level, names, isWildcard })

end PyStatic.Shape
