import PyStatic.Settings.Toml.Quoted

/-!
Contract: the names of settings.
-/

namespace PyStatic.Toml

def nestingLimit : Nat := 80

def isBare (char : Char) : Bool :=
  char.isAlphanum || char == '_' || char == '-'

def keyPart : Reader String
  | '"' :: rest => lineText '"' true rest
  | '\'' :: rest => lineText '\'' false rest
  | chars =>
    match chars.takeWhile isBare with
    | [] => none
    | bare => some (String.ofList bare, chars.dropWhile isBare)

structure Key where
  path : List String
  name : String
  deriving DecidableEq, Repr

def keyWithin : Nat → Reader Key
  | 0, _ => none
  | limit + 1, chars => do
      let (part, rest) ← keyPart (dropBlanks chars)
      match dropBlanks rest with
      | '.' :: rest => do
          let (key, rest) ← keyWithin limit rest
          return ({ key with path := part :: key.path }, rest)
      | rest => return (⟨[], part⟩, rest)

def key : Reader Key :=
  keyWithin (nestingLimit - 1)

end PyStatic.Toml
