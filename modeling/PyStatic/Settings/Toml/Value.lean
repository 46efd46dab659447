import PyStatic.Settings.Toml.Moment
import PyStatic.Settings.Toml.Table

/-!
Contract: reading values.
-/

namespace PyStatic.Toml

def truthValue : Reader TomlValue := fun chars =>
  match skip? ['t', 'r', 'u', 'e'] chars, skip? ['f', 'a', 'l', 's', 'e'] chars with
  | some rest, _ => some (.boolean true, rest)
  | none, some rest => some (.boolean false, rest)
  | none, none => none

def scalar : Reader TomlValue := fun chars =>
  ((quotedText chars).map fun (text, rest) => (.text text, rest)).or <|
    (truthValue chars).or <| (moment chars).or <| (float chars).or <| integer chars

def arrayItems (item : Reader TomlValue) : Nat → Reader (List TomlValue)
  | 0, _ => none
  | limit + 1, chars =>
    match dropGap false chars with
    | ']' :: rest => some ([], rest)
    | chars => do
        let (first, rest) ← item chars
        match dropGap false rest with
        | ',' :: rest => do
            let (more, rest) ← arrayItems item limit rest
            return (first :: more, rest)
        | ']' :: rest => return ([first], rest)
        | _ => none

def setting (item : Reader TomlValue) : Reader (Key × TomlValue) := fun chars => do
  let (key, rest) ← key chars
  let (value, rest) ← item (dropBlanks (← skip? ['='] rest))
  return ((key, value), rest)

def tableSettings (item : Reader TomlValue) : Nat → Reader (List (Key × TomlValue))
  | 0, _ => none
  | limit + 1, chars => do
      let (first, rest) ← setting item chars
      match dropBlanks rest with
      | ',' :: rest => do
          let (more, rest) ← tableSettings item limit rest
          return (first :: more, rest)
      | '}' :: rest => return ([first], rest)
      | _ => none

def lineTable (item : Reader TomlValue) : Reader TomlValue := fun chars =>
  match dropBlanks chars with
  | '}' :: rest => some (.table [], rest)
  | _ => do
      let (settings, rest) ← tableSettings item chars.length chars
      let table ← (Table.mk .header []).assignAll settings
      return (.table table.toEntries, rest)

def valueWithin : Nat → Reader TomlValue
  | depth + 1, '[' :: rest =>
    (arrayItems (valueWithin depth) (rest.length + 1) rest).map fun (items, rest) =>
      (.array items, rest)
  | depth + 1, '{' :: rest => lineTable (valueWithin depth) rest
  | _, chars => scalar chars

def value : Reader TomlValue :=
  valueWithin (nestingLimit - 1)

end PyStatic.Toml
