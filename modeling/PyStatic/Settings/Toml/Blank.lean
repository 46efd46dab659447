import PyStatic.Settings.Toml.Basic

/-!
Contract: what separates the parts of a settings file.
-/

namespace PyStatic.Toml

def isBlank (char : Char) : Bool :=
  char == ' ' || char == '\t'

def isPlain (char : Char) : Bool :=
  char == '\t' || (0x20 ≤ char.toNat && char.toNat != 0x7F)

def dropBlanks (chars : List Char) : List Char :=
  chars.dropWhile isBlank

def newline? : List Char → Option (List Char)
  | '\n' :: rest => some rest
  | '\r' :: '\n' :: rest => some rest
  | _ => none

def dropSpace : List Char → List Char
  | '\r' :: '\n' :: rest => dropSpace rest
  | char :: rest => if isBlank char || char == '\n' then dropSpace rest else char :: rest
  | [] => []

def dropGap : Bool → List Char → List Char
  | _, '\r' :: '\n' :: rest => dropGap false rest
  | inComment, char :: rest =>
    if inComment && isPlain char then dropGap true rest
    else if isBlank char || char == '\n' then dropGap false rest
    else if char == '#' then dropGap true rest
    else char :: rest
  | _, [] => []

def dropComment : List Char → List Char
  | '#' :: rest => rest.dropWhile isPlain
  | chars => chars

def lineEnd? (chars : List Char) : Option (List Char) :=
  match dropComment (dropBlanks chars) with
  | [] => some []
  | rest => newline? rest

end PyStatic.Toml
