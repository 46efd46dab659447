import PyStatic.Settings.Toml.Moment

/-!
Contract: moments that tables spell out.

A table stands for a moment when its first key is `momentKey`. The text under that key is the
moment, and the other keys say nothing. The table of the whole file stands for itself.
-/

namespace PyStatic.Toml

def momentKey : String := "$__toml_private_datetime"

def spelledMoment? : TomlValue → Option TomlValue
  | .text text => if isMoment text then some (.moment text) else none
  | _ => none

mutual

def spelled? : TomlValue → Option TomlValue
  | .array items => (spelledItems? items).map .array
  | .table ((name, first) :: rest) =>
    if name == momentKey then spelledMoment? first
    else do
      let first ← spelled? first
      let rest ← spelledEntries? rest
      return .table ((name, first) :: rest)
  | value => some value

def spelledItems? : List TomlValue → Option (List TomlValue)
  | [] => some []
  | item :: rest => do
      let item ← spelled? item
      let rest ← spelledItems? rest
      return item :: rest

def spelledEntries? : List (String × TomlValue) → Option (List (String × TomlValue))
  | [] => some []
  | (name, value) :: rest => do
      let value ← spelled? value
      let rest ← spelledEntries? rest
      return (name, value) :: rest

end

end PyStatic.Toml
