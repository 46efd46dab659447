import PyStatic.Syntax.Expr

/-!
Contract: the kind of a literal, from its text.
-/

namespace PyStatic.LiteralText

def isDigits (accepts : Char → Bool) (chars : List Char) : Bool :=
  !chars.isEmpty && chars.all fun char => accepts char || char == '_'

def isHexDigit (char : Char) : Bool :=
  char.isDigit || ('a' ≤ char && char ≤ 'f') || ('A' ≤ char && char ≤ 'F')

def isOctalDigit (char : Char) : Bool :=
  '0' ≤ char && char ≤ '7'

def isBinaryDigit (char : Char) : Bool :=
  char == '0' || char == '1'

def isPlainInteger : List Char → Bool
  | '0' :: base :: digits =>
    if base == 'x' || base == 'X' then isDigits isHexDigit digits
    else if base == 'o' || base == 'O' then isDigits isOctalDigit digits
    else if base == 'b' || base == 'B' then isDigits isBinaryDigit digits
    else (base :: digits).all fun char => char.isDigit || char == '_'
  | first :: digits => first.isDigit && digits.all fun char => char.isDigit || char == '_'
  | [] => false

def endsIn (lower upper : Char) (chars : List Char) : Bool :=
  match chars.getLast? with
  | some last => last == lower || last == upper
  | none => false

def isInteger (chars : List Char) : Bool :=
  isPlainInteger chars || (endsIn 'l' 'L' chars && isPlainInteger chars.dropLast)

def numberKind (text : String) : LiteralKind :=
  if endsIn 'j' 'J' text.toList then .complex
  else if isInteger text.toList then .int
  else .float

def stringLetters (text : String) : List Char :=
  let letters := text.toList.takeWhile Char.isAlpha
  match text.toList.dropWhile Char.isAlpha with
  | quote :: _ => if quote == '\"' || quote == '\'' then letters.map Char.toLower else []
  | [] => []

def stringKind (kind : LiteralKind) (letters : List Char) : LiteralKind :=
  if letters.contains 'b' then .bytes
  else if letters.contains 'f' && kind == .str then .fString
  else kind

end PyStatic.LiteralText
