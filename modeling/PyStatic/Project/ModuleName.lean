import PyStatic.Files.Path
import PyStatic.Text.Dotted

/-!
Contract: the dotted names of modules.
-/

namespace PyStatic

def packageStem : String := "__init__"

def moduleName (package file : String) : String :=
  let stem := (Path.ofText file).fileStem?.getD file
  if stem == packageStem then package else Dotted.join package stem

end PyStatic
