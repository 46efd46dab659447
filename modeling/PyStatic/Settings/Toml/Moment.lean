import PyStatic.Settings.Toml.Number

/-!
Contract: moments in time.
-/

namespace PyStatic.Toml

def fixedDigits (value : Nat) : Nat → Reader Nat
  | 0, chars => some (value, chars)
  | count + 1, char :: rest =>
    if char.isDigit then fixedDigits (10 * value + (char.toNat - 0x30)) count rest else none
  | _ + 1, [] => none

def twoDigits (low high : Nat) : Reader Nat := fun chars => do
  let (value, rest) ← fixedDigits 0 2 chars
  if low ≤ value ∧ value ≤ high then return (value, rest) else none

def isLeapYear (year : Nat) : Bool :=
  year % 4 == 0 && (year % 100 != 0 || year % 400 == 0)

def daysIn (year month : Nat) : Nat :=
  if month == 2 then (if isLeapYear year then 29 else 28)
  else if [4, 6, 9, 11].contains month then 30
  else 31

def date? (chars : List Char) : Option (List Char) := do
  let (year, rest) ← fixedDigits 0 4 chars
  let (month, rest) ← twoDigits 1 12 (← skip? ['-'] rest)
  let (_, rest) ← twoDigits 1 (daysIn year month) (← skip? ['-'] rest)
  return rest

def timeOfDay? (lastHour : Nat) (chars : List Char) : Option (List Char) := do
  let (_, rest) ← twoDigits 0 lastHour chars
  let (_, rest) ← twoDigits 0 59 (← skip? [':'] rest)
  let (_, rest) ← twoDigits 0 60 (← skip? [':'] rest)
  match rest with
  | '.' :: digit :: later =>
    return if digit.isDigit then later.dropWhile Char.isDigit else rest
  | _ => return rest

def dropOffset (chars : List Char) : List Char :=
  match chars with
  | 'Z' :: rest => rest
  | 'z' :: rest => rest
  | mark :: rest =>
    if mark == '+' || mark == '-' then
      let distance := do
        let (_, rest) ← twoDigits 0 23 rest
        let (_, rest) ← twoDigits 0 59 (← skip? [':'] rest)
        return rest
      distance.getD chars
    else chars
  | [] => []

def isTimeMark (char : Char) : Bool :=
  char == 'T' || char == 't' || char == ' '

def dropTime (chars : List Char) : List Char :=
  match chars with
  | mark :: rest =>
    if isTimeMark mark then ((timeOfDay? 23 rest).map dropOffset).getD chars else chars
  | [] => []

def moment : Reader TomlValue := fun chars =>
  (((date? chars).map dropTime).or (timeOfDay? 23 chars)).map fun rest =>
    (.moment (writtenBefore chars rest), rest)

def isOffset : List Char → Bool
  | [] => true
  | ['Z'] => true
  | ['z'] => true
  | mark :: rest =>
    let minutes := do
      let (hours, rest) ← fixedDigits 0 2 rest
      let (minutes, rest) ← fixedDigits 0 2 (← skip? [':'] rest)
      if rest.isEmpty then some (60 * hours + minutes) else none
    (mark == '+' || mark == '-') && minutes.any fun minutes => decide (minutes ≤ 24 * 60)

/-- More is accepted here than where a moment stands as a value. -/
def isMoment (text : String) : Bool :=
  match date? text.toList with
  | some [] => true
  | some (mark :: rest) => isTimeMark mark && (timeOfDay? 24 rest).any isOffset
  | none => (timeOfDay? 24 text.toList).any List.isEmpty

end PyStatic.Toml
