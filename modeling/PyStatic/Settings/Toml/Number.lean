import PyStatic.Settings.Toml.Quoted

/-!
Contract: numbers.
-/

namespace PyStatic.Toml

def moreDigits (isDigit : Char → Bool) : List Char → List Char × List Char
  | '_' :: char :: rest =>
    if isDigit char then
      let (digits, rest) := moreDigits isDigit rest
      (char :: digits, rest)
    else ([], '_' :: char :: rest)
  | char :: rest =>
    if isDigit char then
      let (digits, rest) := moreDigits isDigit rest
      (char :: digits, rest)
    else ([], char :: rest)
  | [] => ([], [])

def digits (isDigit : Char → Bool) : Reader (List Char)
  | [] => none
  | char :: rest =>
    if isDigit char then
      let (digits, rest) := moreDigits isDigit rest
      some (char :: digits, rest)
    else none

def numberOf (base : Nat) (digits : List Char) : Nat :=
  digits.foldl (fun value digit => base * value + (hexDigit? digit).getD 0) 0

def sign : List Char → Bool × List Char
  | '-' :: rest => (true, rest)
  | '+' :: rest => (false, rest)
  | chars => (false, chars)

def decimal : Reader (List Char)
  | '0' :: rest => some (['0'], rest)
  | chars => digits Char.isDigit chars

def fitting? (value : Int) : Option TomlValue :=
  if -Int.pow 2 63 ≤ value ∧ value < Int.pow 2 63 then some (.integer value) else none

def inBase (base : Nat) (isDigit : Char → Bool) : Reader TomlValue := fun chars => do
  let (digits, rest) ← digits isDigit chars
  return (← fitting? (numberOf base digits), rest)

def integer : Reader TomlValue
  | '0' :: 'x' :: rest => inBase 16 (fun char => (hexDigit? char).isSome) rest
  | '0' :: 'o' :: rest => inBase 8 (fun char => '0' ≤ char && char ≤ '7') rest
  | '0' :: 'b' :: rest => inBase 2 (fun char => char == '0' || char == '1') rest
  | chars => do
      let (isNegative, rest) := sign chars
      let (digits, rest) ← decimal rest
      let value : Int := numberOf 10 digits
      return (← fitting? (if isNegative then -value else value), rest)

/-- Halfway between the largest double and the next that there would be. -/
def doubleBound : Nat := Nat.pow 2 1024 - Nat.pow 2 970

/-- The number of digits settles all but the numbers near the bound. -/
def isTooLarge (significand : Nat) (exponent : Int) : Bool :=
  let size : Int := (Nat.toDigits 10 significand).length + exponent
  if significand == 0 || size < 300 then false
  else if 320 < size then true
  else if 0 ≤ exponent then doubleBound ≤ significand * Nat.pow 10 exponent.toNat
  else doubleBound * Nat.pow 10 (-exponent).toNat ≤ significand

def fraction : Reader (List Char)
  | '.' :: rest => digits Char.isDigit rest
  | _ => none

def exponentNumber : Reader Int := fun chars => do
  let (isNegative, rest) := sign chars
  let (digits, rest) ← digits Char.isDigit rest
  let value : Int := numberOf 10 digits
  return (if isNegative then -value else value, rest)

def exponent : Reader Int
  | 'e' :: rest => exponentNumber rest
  | 'E' :: rest => exponentNumber rest
  | _ => none

def scientific : Reader (List Char × List Char × Int) := fun chars => do
  let (digits, rest) ← decimal chars
  match fraction rest with
  | some (part, rest) =>
    let (power, rest) := (exponent rest).getD (0, rest)
    return ((digits, part, power), rest)
  | none =>
    let (power, rest) ← exponent rest
    return ((digits, [], power), rest)

def namedNumber? (chars : List Char) : Option (List Char) :=
  (skip? ['i', 'n', 'f'] chars).or (skip? ['n', 'a', 'n'] chars)

/-- A positive number too large for a double is refused, a negative one is not. -/
def float : Reader TomlValue := fun chars =>
  let (isNegative, unsigned) := sign chars
  match namedNumber? unsigned with
  | some rest => some (.float (writtenBefore chars rest), rest)
  | none => do
      let ((digits, part, power), rest) ← scientific unsigned
      if !isNegative && isTooLarge (numberOf 10 (digits ++ part)) (power - part.length) then none
      else return (.float (writtenBefore chars rest), rest)

end PyStatic.Toml
