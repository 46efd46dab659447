import PyStatic.Settings.Toml.Blank

/-!
Contract: texts between quotes.

A text between double quotes has escapes, one between single quotes has none. A text over several
lines stands between three quotes, and every line break in it counts as a line feed.
-/

namespace PyStatic.Toml

def hexDigit? (char : Char) : Option Nat :=
  if char.isDigit then some (char.toNat - 0x30)
  else if 'a' ≤ char && char ≤ 'f' then some (char.toNat - 0x57)
  else if 'A' ≤ char && char ≤ 'F' then some (char.toNat - 0x37)
  else none

def hexNumber (value : Nat) : Nat → Reader Nat
  | 0, chars => some (value, chars)
  | count + 1, char :: rest => do
      let digit ← hexDigit? char
      hexNumber (16 * value + digit) count rest
  | _ + 1, [] => none

def charOf? (code : Nat) : Option Char :=
  if code.isValidChar then some (Char.ofNat code) else none

def coded (count : Nat) : Reader Char := fun chars => do
  let (code, rest) ← hexNumber 0 count chars
  return (← charOf? code, rest)

def escaped : Reader Char
  | 'b' :: rest => some ('\x08', rest)
  | 't' :: rest => some ('\t', rest)
  | 'n' :: rest => some ('\n', rest)
  | 'f' :: rest => some ('\x0c', rest)
  | 'r' :: rest => some ('\r', rest)
  | '"' :: rest => some ('"', rest)
  | '\\' :: rest => some ('\\', rest)
  | 'u' :: rest => coded 4 rest
  | 'U' :: rest => coded 8 rest
  | _ => none

def lineWithin (quote : Char) (hasEscapes : Bool) : Nat → Reader (List Char)
  | 0, _ => none
  | _ + 1, [] => none
  | limit + 1, char :: rest =>
    if char == quote then some ([], rest)
    else if hasEscapes && char == '\\' then do
      let (meant, rest) ← escaped rest
      let (more, rest) ← lineWithin quote hasEscapes limit rest
      return (meant :: more, rest)
    else if isPlain char then do
      let (more, rest) ← lineWithin quote hasEscapes limit rest
      return (char :: more, rest)
    else none

def lineText (quote : Char) (hasEscapes : Bool) : Reader String := fun chars =>
  (lineWithin quote hasEscapes chars.length chars).map fun (text, rest) =>
    (String.ofList text, rest)

/-- Up to two quotes before the last three belong to the text. -/
def blockEnd? (quote : Char) (chars : List Char) : Option (List Char × List Char) :=
  let count := (chars.takeWhile (· == quote)).length
  if 3 ≤ count then
    let own := min (count - 3) 2
    some (List.replicate own quote, chars.drop (own + 3))
  else none

def joined? (chars : List Char) : Option (List Char) :=
  (newline? (dropBlanks chars)).map dropSpace

def blockWithin (quote : Char) (hasEscapes : Bool) : Nat → Reader (List Char)
  | 0, _ => none
  | limit + 1, chars =>
    match blockEnd? quote chars, newline? chars, chars with
    | some result, _, _ => some result
    | none, some rest, _ => do
        let (more, rest) ← blockWithin quote hasEscapes limit rest
        return ('\n' :: more, rest)
    | none, none, [] => none
    | none, none, char :: rest =>
      if hasEscapes && char == '\\' then
        match joined? rest with
        | some rest => blockWithin quote hasEscapes limit rest
        | none => do
            let (meant, rest) ← escaped rest
            let (more, rest) ← blockWithin quote hasEscapes limit rest
            return (meant :: more, rest)
      else if isPlain char then do
        let (more, rest) ← blockWithin quote hasEscapes limit rest
        return (char :: more, rest)
      else none

def blockText (quote : Char) (hasEscapes : Bool) : Reader String := fun chars =>
  let chars := (newline? chars).getD chars
  (blockWithin quote hasEscapes chars.length chars).map fun (text, rest) =>
    (String.ofList text, rest)

def quotedText : Reader String
  | '"' :: '"' :: '"' :: rest => blockText '"' true rest
  | '"' :: rest => lineText '"' true rest
  | '\'' :: '\'' :: '\'' :: rest => blockText '\'' false rest
  | '\'' :: rest => lineText '\'' false rest
  | _ => none

end PyStatic.Toml
