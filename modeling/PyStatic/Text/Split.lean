/-!
Contract: cutting a text at every occurrence of a separator.
-/

namespace PyStatic.Text

def splitChars (separator : Char) : List Char → List Char → List String
  | current, [] => [String.ofList current.reverse]
  | current, char :: rest =>
    if char = separator then String.ofList current.reverse :: splitChars separator [] rest
    else splitChars separator (char :: current) rest

def split (separator : Char) (text : String) : List String :=
  splitChars separator [] text.toList

end PyStatic.Text
