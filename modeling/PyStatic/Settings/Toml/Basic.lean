/-!
Contract: values of a settings file.
-/

namespace PyStatic

inductive TomlValue where
  | text (text : String)
  | integer (value : Int)
  | float (written : String)
  | boolean (value : Bool)
  | moment (written : String)
  | array (items : List TomlValue)
  | table (entries : List (String × TomlValue))
  deriving Repr, Inhabited

namespace Toml

abbrev Reader (α : Type) : Type := List Char → Option (α × List Char)

def writtenBefore (chars rest : List Char) : String :=
  String.ofList (chars.take (chars.length - rest.length))

def skip? : List Char → List Char → Option (List Char)
  | [], chars => some chars
  | expected :: more, char :: rest => if char == expected then skip? more rest else none
  | _ :: _, [] => none

end Toml

end PyStatic
